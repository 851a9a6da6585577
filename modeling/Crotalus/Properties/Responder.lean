import Crotalus.Spec.Cgi

namespace Crotalus

open Stateful

/-! One responder for each request: when a handler's answer is final. -/

/-- Does the handler answer with something other than 0? CGI and shell scripts want all
their variables, a pipe and a process; PHP a worker, as without one its script starts but
the answer is 0. -/
def Conn.answers (e : Config) (c : Conn) : MimeHandler → Bool
  | .cgi => varsFit c.req c.sys.mem.tail (envEntries e c.req).length && c.sys.cgiPipe.isSome &&
      c.sys.nonblock && c.sys.fork
  | .php => e.build.haveLibshare
  | .gzip => true

/-- The request as the script handlers pass it on. -/
def Conn.asScript (c : Conn) (t : CgiType) : Conn :=
  { c with
    req := { c.req with
      scriptName := if c.sys.mem.headD true then some c.req.requestUri else none
      cgiType := t }
    sys := { c.sys with mem := c.sys.mem.tail } }

theorem mimeGetCgi_run (e : Config) (c : Conn) :
    value (mimeGetCgi e) c = value (initCgi e) (c.asScript .exec) ∧
      exec (mimeGetCgi e) c = exec (initCgi e) (c.asScript .exec) := ⟨rfl, rfl⟩

theorem mimeGetPhp_run (e : Config) (c : Conn) :
    value (mimeGetPhp e) c = value (initCgi e) (c.asScript .php) ∧
      exec (mimeGetPhp e) c = exec (initCgi e) (c.asScript .php) := ⟨rfl, rfl⟩

theorem envFits_asScript (e : Config) (c : Conn) (t : CgiType) :
    (c.asScript t).envFits e = varsFit c.req c.sys.mem.tail (envEntries e c.req).length := by
  have hlen : (envEntries e (c.asScript t).req).length = (envEntries e c.req).length := by
    simp only [envEntries, List.length_append, List.length_cons, List.length_nil]
    rfl
  rw [Conn.envFits, hlen]
  rfl

theorem program_exec (e : Config) (c : Conn) :
    (c.asScript .exec).program e = c.answers e .cgi := by
  have hf : (c.asScript .exec).forks =
      (c.sys.cgiPipe.isSome && c.sys.nonblock && c.sys.fork) := rfl
  have ht : (c.asScript .exec).req.cgiType ≠ .unset := CgiType.noConfusion
  rw [Conn.program, decide_eq_false ht, Bool.false_or, hf, envFits_asScript, Conn.answers,
    Bool.and_assoc, Bool.and_assoc, Bool.and_assoc]

theorem mimeGet_answers (e : Config) (h : MimeHandler) (c : Conn) :
    value (mimeGet e h) c ≠ 0 ↔ c.answers e h = true := by
  cases h with
  | cgi =>
    have hw : (c.asScript .exec).worker e = false := Bool.and_false _
    have hu : (c.asScript .exec).req.usePipes = true := rfl
    rw [mimeGet, (mimeGetCgi_run e c).1, ← program_exec]
    cases hp : (c.asScript .exec).program e with
    | true => simp [(initCgi_starts e hw hp).1, hu]
    | false => simp [(initCgi_fails e hw hp).1]
  | php =>
    rw [mimeGet, (mimeGetPhp_run e c).1, Conn.answers]
    cases hlib : e.build.haveLibshare with
    | true =>
      have hw : (c.asScript .php).worker e = true := by
        rw [Conn.worker, hlib]
        rfl
      rw [(initCgi_worker e hw).1]
      by_cases hne : (c.asScript .php).sys.shprocPush ≠ 0
      · simp [hne]
      · simp [hne]
    | false =>
      have hw : (c.asScript .php).worker e = false := by
        rw [Conn.worker, hlib]
        rfl
      have hu : (c.asScript .php).req.usePipes = false := rfl
      cases hp : (c.asScript .php).program e with
      | true => simp [(initCgi_starts e hw hp).1, hu]
      | false => simp [(initCgi_fails e hw hp).1]
  | gzip =>
    simp only [mimeGet, mimeGetGzip, value_bind, exec_mark, value_get, exec_get, Conn.answers]
    cases c.sys.gzopen with
    | none => simp
    | some blocks => simp

/-- The request, after its URI is translated, for which `mime_interp_extension` is asked and
selects a definition with a handler for GET. -/
structure Selects (e : Config) (c : Conn) (m : Mime) (h : MimeHandler) : Prop where
  method : c.req.method = .get ∨ c.req.method = .head
  cgiType : c.req.cgiType = .unset
  mime : c.req.mime = none
  extension : mimeInterpExtension e c.sys.stat (c.req.pathname.getD []) = some m
  get : m.get = some h

/-- The definition is asked, as its type is not the default type, and its handler answers. -/
def Conn.responds (e : Config) (c : Conn) (m : Mime) (h : MimeHandler) : Bool :=
  !strcaseEq m.type e.defaultType && c.answers e h

/-- The request with its definition. -/
def Conn.withMime (c : Conn) (m : Mime) : Conn := { c with req := { c.req with mime := some m } }

section Dispatch

variable (e : Config) {c : Conn} {m : Mime} {h : MimeHandler}

theorem dispatchRequest_selects (hs : Selects e c m h) :
    exec (dispatchRequest e) c = exec (do
      let err ← mimeInterpRequest e
      if err ≠ 0 then return err else startGet e) (c.withMime m) := by
  have hpost : ¬c.req.method = .post := by
    rcases hs.method with hm | hm <;> rw [hm] <;> exact Method.noConfusion
  have hnot : ¬c.req.cgiType ≠ .unset := not_not.mpr hs.cgiType
  have hmime : exec (selectMime e) c = c.withMime m := by
    simp only [selectMime, exec_modify, Conn.withMime, hs.mime, hs.extension, Option.none_or]
  simp only [dispatchRequest, exec_bind, exec_getReq, value_getReq, if_neg hpost, if_neg hnot,
    answerGet, hmime]

theorem handler_selects (hs : Selects e c m h) :
    (c.withMime m).req.handler e =
      if strcaseEq m.type e.defaultType then none else some h := by
  have hm : c.req.method = .head ∨ c.req.method = .get := hs.method.symm
  change (if strcaseEq m.type e.defaultType then none
    else if c.req.method = .head ∨ c.req.method = .get then m.get else none) = _
  rw [if_pos hm, hs.get]

theorem mimeInterpRequest_responds (hs : Selects e c m h) :
    value (mimeInterpRequest e) (c.withMime m) ≠ 0 ↔ c.responds e m h = true := by
  have hanswers : (c.withMime m).answers e h = c.answers e h := by
    cases h <;> rfl
  simp only [mimeInterpRequest, value_bind, value_getReq, exec_getReq, handler_selects e hs,
    Conn.responds]
  cases strcaseEq m.type e.defaultType with
  | true => simp
  | false => simpa [hanswers] using mimeGet_answers e h (c.withMime m)

/-- `init_get` is asked once the handlers have declined. -/
theorem startGet_initGet (c : Conn) : ¬Passed (· ≠ .initGet) c (exec (startGet e) c) := by
  let c1 := exec (setStatus .write) (exec (mark .handlerDeclined) (exec (selectFilter e) c))
  obtain ⟨vs, ht, -⟩ := (openGet_works e .all (exec (mark .initGet) c1)).passed
  have hselect := (selectFilter_works (T := fun _ => True) (S := fun _ => False) e c).passed.eq
  have hrun : (exec (startGet e) c).trace = c1.trace ++ [⟨.initGet, c1.req, c1.sys⟩] ++ vs := ht
  have hc1 : c1.trace = c.trace ++ [⟨.handlerDeclined, (exec (selectFilter e) c).req,
      (exec (selectFilter e) c).sys⟩] := by
    rw [← hselect]
    rfl
  rintro ⟨vs', ht', hs⟩
  rw [ht', hc1, List.append_assoc, List.append_assoc, List.append_right_inj] at hrun
  have hmem : (⟨.initGet, c1.req, c1.sys⟩ : Visit) ∈ vs' := by
    rw [hrun]
    exact List.mem_append_right _ (List.mem_append_left _ (List.mem_singleton.mpr rfl))
  exact hs _ hmem rfl

end Dispatch

theorem Passed.of_trans {S : Site → Prop} {c c' c'' : Conn} (h : ∃ vs, c'.trace = c.trace ++ vs)
    (h' : ∃ vs, c''.trace = c'.trace ++ vs) (hp : Passed S c c'') : Passed S c' c'' := by
  obtain ⟨vs, ht⟩ := h
  obtain ⟨vs', ht'⟩ := h'
  obtain ⟨ws, htw, hs⟩ := hp
  rw [ht', ht, List.append_assoc, List.append_right_inj] at htw
  exact ⟨vs', ht', fun v hv => hs v (htw ▸ List.mem_append_right _ hv)⟩

/-- One responder: a request for which a definition with a handler is selected does not go on
to `init_get` exactly when the definition is not of the default type and its handler answers. -/
theorem processHeaderEnd_one_responder_iff (e : Config) (c : Conn) (m : Mime) (h : MimeHandler)
    (hprep : value (prepareRequest e) c = true) (hs : Selects e (exec (prepareRequest e) c) m h) :
    Passed (· ≠ .initGet) c (exec (processHeaderEnd e) c) ↔
      (exec (prepareRequest e) c).responds e m h = true := by
  have hrun : exec (processHeaderEnd e) c =
      exec (dispatchRequest e) (exec (prepareRequest e) c) := by
    simp only [processHeaderEnd, exec_bind, hprep, if_true]
  have hp : Passed (· ≠ .initGet) c ((exec (prepareRequest e) c).withMime m) :=
    ((prepareRequest_passed e c).trans (.same rfl))
  rw [hrun, dispatchRequest_selects e hs, ← mimeInterpRequest_responds e hs]
  generalize (exec (prepareRequest e) c).withMime m = c1 at hp
  have hm : Passed (· ≠ .initGet) c1 (exec (mimeInterpRequest e) c1) :=
    (mimeInterpRequest_works (T := fun _ => True) e trivial trivial trivial Site.noConfusion
      Site.noConfusion Site.noConfusion Site.noConfusion c1).passed
  simp only [exec_bind]
  by_cases hv : value (mimeInterpRequest e) c1 ≠ 0
  · simp only [if_pos hv, exec_pure]
    exact ⟨fun _ => hv, fun _ => hp.trans hm⟩
  · simp only [if_neg hv]
    refine ⟨fun hpass => ?_, fun h => absurd h hv⟩
    obtain ⟨vs, ht, -⟩ := hp.trans hm
    obtain ⟨vs', ht', -⟩ := (startGet_works e .all (exec (mimeInterpRequest e) c1)).passed
    exact absurd (Passed.of_trans ⟨vs, ht⟩ ⟨vs', ht'⟩ hpass) (startGet_initGet e _)

def cgiBuild : Config where
  build := { cgi := true }
  mimeHashtable := [(str "cgi", str "application/x-httpd-cgi")]
  docroot := some (str "/w")

/-- A GET of a script from a client that sent many header fields. -/
def scriptRequest (index : Nat) : Conn where
  req := {
    method := .get, httpVersion := .http10, logline := some (str "GET /a.cgi HTTP/1.0")
    requestUri := str "/a.cgi", cgiEnvIndex := index, fd := 5, kacount := 10 }
  sys := {
    cgiPipe := some 9, nonblock := true, fork := true, mmap := true
    openFile := fun p =>
      if p = str "/w/a.cgi" then .ok (7, ⟨.reg, 6, 1, 1, 1, str "secret"⟩) else .error .noEnt }

def cgiMime : Mime :=
  ⟨str "application/x-httpd-cgi", str "cgi", some .cgi, some .cgi, false, false⟩

theorem scriptRequest_selects {index : Nat} (h : index ∈ [5, 95]) :
    value (prepareRequest cgiBuild) (scriptRequest index) = true ∧
      Selects cgiBuild (exec (prepareRequest cgiBuild) (scriptRequest index)) cgiMime .cgi := by
  have hall : ∀ index ∈ [5, 95],
      let c := exec (prepareRequest cgiBuild) (scriptRequest index)
      value (prepareRequest cgiBuild) (scriptRequest index) = true ∧ c.req.method = .get ∧
        c.req.cgiType = .unset ∧ c.req.mime = none ∧
        mimeInterpExtension cgiBuild c.sys.stat (c.req.pathname.getD []) = some cgiMime := by
    decide +kernel
  obtain ⟨hp, hm, ht, hmime, hext⟩ := hall index h
  exact ⟨hp, .inl hm, ht, hmime, hext, rfl⟩

/-- With 95 variables from the header the environment does not fit, and the client is sent
the text of the script. -/
theorem processHeaderEnd_two_responders :
    value (prepareRequest cgiBuild) (scriptRequest 95) = true ∧
      Selects cgiBuild (exec (prepareRequest cgiBuild) (scriptRequest 95)) cgiMime .cgi ∧
      ¬Passed (· ≠ .initGet) (scriptRequest 95)
        (exec (processHeaderEnd cgiBuild) (scriptRequest 95)) ∧
      str "secret" <:+ (exec (processHeaderEnd cgiBuild) (scriptRequest 95)).req.pending := by
  obtain ⟨hp, hs⟩ := scriptRequest_selects (List.mem_cons_of_mem 5 (List.mem_singleton.mpr (rfl : 95 = 95)))
  have hasked : Site.initGet ∈
      (exec (processHeaderEnd cgiBuild) (scriptRequest 95)).trace.map (·.site) := by
    decide +kernel
  exact ⟨hp, hs, not_passed rfl hasked (fun h => h rfl), by decide +kernel⟩

theorem processHeaderEnd_one_responder_script :
    Passed (· ≠ .initGet) (scriptRequest 5) (exec (processHeaderEnd cgiBuild) (scriptRequest 5)) ↔
      (exec (prepareRequest cgiBuild) (scriptRequest 5)).responds cgiBuild cgiMime .cgi = true :=
  processHeaderEnd_one_responder_iff cgiBuild (scriptRequest 5) cgiMime .cgi
    (scriptRequest_selects (by decide)).1 (scriptRequest_selects (by decide)).2

end Crotalus
