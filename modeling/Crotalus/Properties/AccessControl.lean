import Crotalus.Server.Read
import Crotalus.Spec.Works
import Crotalus.Properties.Responder

namespace Crotalus

open Stateful

/-! Access control: what a denied client can still set going. -/

/-- A point where a program is started, a job given to a worker, or a file put into the
response. -/
def Site.serves (s : Site) : Prop := s = .startCgi ∨ s = .pushWork ∨ s = .serveFile

/-- Nothing is started or served between `c` and `c'`. -/
def Unserved (c c' : Conn) : Prop := Passed (fun s => ¬s.serves) c c'

theorem Passed.unserved {c c' : Conn} (h : ∀ S, Passed S c c') : Unserved c c' := h _

theorem not_unserved {c c' : Conn} {v : Visit} {u w : List Visit}
    (ht : c'.trace = c.trace ++ u ++ [v] ++ w) (hs : v.site.serves) : ¬Unserved c c' := by
  rintro ⟨vs, hu, hnone⟩
  rw [ht, List.append_assoc, List.append_assoc, List.append_right_inj] at hu
  refine hnone v ?_ hs
  rw [← hu]
  exact List.mem_append_right _ (List.mem_append_left _ (List.mem_singleton.mpr rfl))

theorem unserved_after {c c' c'' : Conn} (h : c'.trace = c.trace) :
    Unserved c c'' ↔ Unserved c' c'' := by
  unfold Unserved Passed
  rw [h]

theorem served_after {S : Site → Prop} {c : Conn} {site : Site} (h : S site) :
    Passed S c (exec (mark site) c) :=
  (Works.mark (T := fun _ => True) h c).passed

/-- A visit of a point that serves nothing makes no difference. -/
theorem unserved_marked {c c' : Conn} {site : Site} (hs : ¬site.serves)
    (h : ∃ vs, c'.trace = (exec (mark site) c).trace ++ vs) :
    Unserved c c' ↔ Unserved (exec (mark site) c) c' :=
  ⟨Passed.of_trans ⟨_, rfl⟩ h, (served_after (S := fun s => ¬s.serves) hs).trans⟩

theorem initCgi_unserved_iff (e : Config) (c : Conn) :
    Unserved c (exec (initCgi e) c) ↔ c.worker e = false ∧ c.program e = false := by
  cases hw : c.worker e with
  | true =>
    obtain ⟨-, v, ht, hs⟩ := initCgi_worker e hw
    have hno : ¬Unserved c (exec (initCgi e) c) :=
      not_unserved (u := []) (w := []) (by rw [ht, List.append_nil, List.append_nil])
        (.inr (.inl hs))
    exact ⟨fun h => absurd h hno, fun h => absurd h.1 (by decide)⟩
  | false =>
    cases hp : c.program e with
    | true =>
      obtain ⟨-, v, ht, hs⟩ := initCgi_starts e hw hp
      have hno : ¬Unserved c (exec (initCgi e) c) :=
        not_unserved (u := []) (w := []) (by rw [ht, List.append_nil, List.append_nil])
          (.inl hs)
      exact ⟨fun h => absurd h hno, fun h => absurd h.2 (by decide)⟩
    | false => exact ⟨fun _ => ⟨rfl, rfl⟩, fun _ => .same (initCgi_fails e hw hp).2⟩

/-- The decompressed file has a first block. -/
def World.unzips (w : World) : Bool := (w.gzopen.getD []).headD [] ≠ []

/-- Does the handler leave everything alone? -/
def Conn.handlerIdle (e : Config) (c : Conn) : MimeHandler → Bool
  | .cgi => !(c.asScript .exec).program e
  | .php => !(c.asScript .php).worker e && !(c.asScript .php).program e
  | .gzip => !c.sys.unzips

/-- Nothing is started or served for the translated request when access is denied: what the
branches of `process_header_end` that do not ask for access find must not let them. -/
def Conn.idle (e : Config) (c : Conn) : Bool :=
  if c.req.method = .post then true
  else if c.req.cgiType ≠ .unset then !c.worker e && !c.program e
  else
    match (exec (selectMime e) c).req.handler e with
    | some h => (exec (selectMime e) c).handlerIdle e h
    | none => true

/-- The same for a body that is complete. -/
def Conn.bodyIdle (e : Config) (c : Conn) : Bool :=
  if c.req.bodyCount = 0 ∧ c.req.filepos ≥ c.req.filesize then !c.worker e && !c.program e
  else true

theorem idle_iff (e : Config) (c : Conn) :
    (!c.worker e && !c.program e) = true ↔ c.worker e = false ∧ c.program e = false := by
  rw [Bool.and_eq_true, Bool.not_eq_true', Bool.not_eq_true']

theorem gzipBlocks_unserved_iff (e : Config) (blocks : List (List Byte)) (c : Conn) :
    Unserved c (exec (gzipBlocks e blocks) c) ↔ blocks.headD [] = [] := by
  cases blocks with
  | nil => exact ⟨fun _ => rfl, fun _ => .refl c⟩
  | cons b bs =>
    by_cases hb : b = []
    · simp only [gzipBlocks, if_pos hb]
      exact ⟨fun _ => hb, fun _ => .refl c⟩
    · simp only [gzipBlocks, if_neg hb, exec_bind]
      have hblock : Passed (fun _ => True) (exec (mark .serveFile) c)
          (exec (gzipBlocks e bs) (exec (gzipBlock e (b.take 2048)) c)) := by
        have hcopy : Passed (fun _ => True) (exec (mark .serveFile) c)
            (exec (gzipBlock e (b.take 2048)) c) := (copyBlock_works (T := fun _ => True) e trivial _ _).passed
        exact hcopy.trans (gzipBlocks_works (T := fun _ => True) e trivial trivial bs _).passed
      obtain ⟨ws, ht, -⟩ := hblock
      have hno := not_unserved (c := c) (u := []) (w := ws) (v := ⟨.serveFile, c.req, c.sys⟩)
        (by rw [ht, List.append_nil]; rfl) (.inr (.inr rfl))
      exact ⟨fun h => absurd h hno, fun h => absurd h hb⟩

theorem mimeGet_unserved_iff (e : Config) (h : MimeHandler) (c : Conn) :
    Unserved c (exec (mimeGet e h) c) ↔ c.handlerIdle e h = true := by
  cases h with
  | cgi =>
    have hw : (c.asScript .exec).worker e = false := Bool.and_false _
    have hiff := initCgi_unserved_iff e (c.asScript .exec)
    rw [mimeGet, (mimeGetCgi_run e c).2, Conn.handlerIdle, Bool.not_eq_true']
    exact ⟨fun h => (hiff.mp h).2, fun h => hiff.mpr ⟨hw, h⟩⟩
  | php =>
    rw [mimeGet, (mimeGetPhp_run e c).2, Conn.handlerIdle, idle_iff]
    exact initCgi_unserved_iff e (c.asScript .php)
  | gzip =>
    simp only [mimeGet, mimeGetGzip, exec_bind, value_get, exec_get, Conn.handlerIdle,
      World.unzips]
    have hsys : c.sys = (exec (mark .gzip) c).sys := rfl
    have hmark : Unserved c (exec (mark .gzip) c) :=
      served_after (S := fun s => ¬s.serves) (by simp [Site.serves])
    have htrace : (exec (mark .gzip) c).trace = c.trace ++ [⟨.gzip, c.req, c.sys⟩] := rfl
    rw [hsys]
    generalize exec (mark .gzip) c = c1 at hmark htrace
    cases hgz : c1.sys.gzopen with
    | none =>
      have hpass : Unserved c1 (exec (sendRBadGateway e) c1) :=
        (sendRBadGateway_works (T := fun _ => True) e trivial c1).passed
      exact ⟨fun _ => rfl, fun _ => hmark.trans hpass⟩
    | some blocks =>
      have hsame := (sendRRequestOk_works (T := fun _ => True) (S := fun _ => False) e trivial
        c1).passed.eq
      have hiff := gzipBlocks_unserved_iff e blocks (exec (sendRRequestOk e) c1)
      rw [← unserved_after hsame] at hiff
      obtain ⟨ws, hws, -⟩ := (gzipBlocks_works (T := fun _ => True) (S := fun _ => True) e trivial
        trivial blocks (exec (sendRRequestOk e) c1)).passed
      have hback := Passed.of_trans (S := fun s => ¬s.serves) ⟨_, htrace⟩ ⟨ws, hsame ▸ hws⟩
      have hrest : Unserved c (exec (gzipBlocks e blocks) (exec (sendRRequestOk e) c1)) ↔
          blocks.headD [] = [] :=
        ⟨fun hu => hiff.mp (hback hu), fun hi => hmark.trans (hiff.mpr hi)⟩
      simpa using hrest

/-! The dispatch. -/

section Dispatch

variable (e : Config) (c : Conn)

theorem mimeInterpRequest_unserved_iff :
    Unserved c (exec (mimeInterpRequest e) c) ↔
      (∀ h, c.req.handler e = some h → c.handlerIdle e h = true) := by
  simp only [mimeInterpRequest, exec_bind, exec_getReq, value_getReq]
  cases c.req.handler e with
  | none => exact ⟨fun _ _ h => (by cases h), fun _ => Passed.refl c⟩
  | some h =>
    have hiff := mimeGet_unserved_iff e h c
    exact ⟨fun hu h' hh => by cases hh; exact hiff.mp hu, fun hall => hiff.mpr (hall h rfl)⟩

/-- Access depends on the host and on the origin. -/
theorem access_congr {r r' : Request} (hh : r'.host = r.host)
    (hip : r'.remoteIpAddr = r.remoteIpAddr) : r'.access e = r.access e := by
  rw [Request.access, Request.access, accessAllow, accessAllow, hh, hip]

theorem access_worked {T : Status → Prop} {S : Site → Prop} {c c' : Conn} (h : Worked T S c c') :
    c'.req.access e = c.req.access e := by
  have hp := h.req
  simp only [Request.steady, Prod.mk.injEq] at hp
  exact access_congr e hp.2.2.1 hp.2.2.2.1

theorem openGet_denied (hb : e.build.accessControl = true) (hd : c.req.access e = .deny) :
    Unserved c (exec (openGet e) c) := by
  have hw := openPath_works (T := fun _ => True) (S := fun s => ¬s.serves) e c
  have hopen : Unserved c (exec (openPath e) c) := hw.passed
  have hdeny : (e.build.accessControl && decide ((exec (openPath e) c).req.access e = .deny)) =
      true := by
    rw [hb, access_worked e hw, hd]
    rfl
  simp only [openGet, exec_bind]
  match value (openPath e) c with
  | .error err => exact hopen.trans (openFailed_works (T := fun _ => True) e trivial err _).passed
  | .ok (fd, f) =>
    simp only [exec_bind, value_getReq, exec_getReq, hdeny, if_true]
    exact hopen.trans (sendRForbidden_works (T := fun _ => True) e trivial _).passed

/-- A denied request for a file gets a page, whatever the file is. -/
theorem startGet_denied (hb : e.build.accessControl = true) (hd : c.req.access e = .deny) :
    Unserved c (exec (startGet e) c) := by
  let c1 := exec (setStatus .write) (exec (mark .handlerDeclined) (exec (selectFilter e) c))
  have hw := selectFilter_works (T := fun _ => True) (S := fun s => ¬s.serves) e c
  have hselect : Unserved c (exec (selectFilter e) c) := hw.passed
  have hmark : Unserved (exec (selectFilter e) c) c1 :=
    (served_after (S := fun s => ¬s.serves) (by simp [Site.serves])).trans (.same rfl)
  have hasked : Unserved c1 (exec (mark .initGet) c1) :=
    served_after (S := fun s => ¬s.serves) (by simp [Site.serves])
  have haccess : (exec (mark .initGet) c1).req.access e = .deny :=
    (access_worked e hw).trans hd
  exact ((hselect.trans hmark).trans hasked).trans (openGet_denied e _ hb haccess)

theorem dispatchRequest_unserved_iff (hb : e.build.accessControl = true)
    (hd : c.req.access e = .deny) :
    Unserved c (exec (dispatchRequest e) c) ↔ c.idle e = true := by
  simp only [dispatchRequest, exec_bind, exec_getReq, value_getReq, Conn.idle]
  by_cases hpost : c.req.method = .post
  · simp only [if_pos hpost]
    exact ⟨fun _ => trivial, fun _ => openPost_passed e c⟩
  by_cases ht : c.req.cgiType ≠ .unset
  · simp only [if_neg hpost, if_pos ht, idle_iff]
    exact initCgi_unserved_iff e c
  simp only [if_neg hpost, if_neg ht, answerGet, exec_bind]
  have haccess : (exec (selectMime e) c).req.access e = .deny := hd
  have htrace : (exec (selectMime e) c).trace = c.trace := rfl
  rw [unserved_after htrace]
  generalize exec (selectMime e) c = c1 at haccess
  have hiff := mimeInterpRequest_unserved_iff e c1
  have hidle : (∀ h, c1.req.handler e = some h → c1.handlerIdle e h = true) ↔
      (match c1.req.handler e with
        | some h => c1.handlerIdle e h
        | none => true) = true := by
    cases c1.req.handler e with
    | none => exact ⟨fun _ => rfl, fun _ _ h => by cases h⟩
    | some h => exact ⟨fun hall => hall h rfl, fun hi k hk => by cases hk; exact hi⟩
  rw [← hidle, ← hiff]
  by_cases hv : value (mimeInterpRequest e) c1 ≠ 0
  · simp only [if_pos hv, exec_pure]
  · simp only [if_neg hv]
    have hworked := mimeInterpRequest_works (T := fun _ => True) (S := fun _ => True) e trivial
      trivial trivial trivial trivial trivial trivial c1
    have hstart := startGet_denied e (exec (mimeInterpRequest e) c1) hb
      ((access_worked e hworked).trans haccess)
    refine ⟨fun hall => ?_, fun hm => hm.trans hstart⟩
    obtain ⟨vs, htv, -⟩ := hworked.passed
    obtain ⟨vs', htv', -⟩ := hstart
    obtain ⟨ws, htw, hnone⟩ := hall
    rw [htv', htv, List.append_assoc, List.append_right_inj] at htw
    exact ⟨vs, htv, fun v hv' => hnone v (htw ▸ List.mem_append_left _ hv')⟩

theorem writeBody_unserved_iff :
    Unserved c (exec (writeBody e) c) ↔ c.bodyIdle e = true := by
  simp only [writeBody, exec_bind, exec_getReq, value_getReq, Conn.bodyIdle]
  by_cases hn : c.req.bodyCount = 0
  · simp only [hn, true_and, if_true]
    let c1 := exec (modReq fun r => { r with headerArea := .buffer, headerLine := 0, headerEnd := 0 }) c
    by_cases hf : c.req.filepos ≥ c.req.filesize
    · simp only [if_pos hf, idle_iff]
      let c2 := exec (mark (.bodyDone c1.postFile c1.body)) c1
      obtain ⟨vs, hvs, -⟩ := (initCgi_works (T := fun _ => True) (S := fun _ => True) e trivial
        trivial trivial trivial trivial c2).passed
      have hsite : ¬(Site.bodyDone c1.postFile c1.body).serves := by simp [Site.serves]
      exact (unserved_marked (c := c1) hsite ⟨vs, hvs⟩).trans (initCgi_unserved_iff e c2)
    · simp only [if_neg hf, iff_true]
      exact Passed.same rfl
  · simp only [hn, false_and, if_false, iff_true, exec_bind]
    have hp := postWrite_posted (c.req.bodyBytes c.req.bodyCount) c
    generalize value (postWrite (c.req.bodyBytes c.req.bodyCount)) c = v at hp
    generalize exec (postWrite (c.req.bodyBytes c.req.bodyCount)) c = c1 at hp
    have hpost : Unserved c c1 := by cases hp <;> exact .same rfl
    refine hpost.trans ?_
    match v with
    | .ok k => exact .same rfl
    | .error err =>
      have hfail : Unserved c1 (exec (crotalusPerror e) c1) :=
        (crotalusPerror_works (T := fun _ => True) e trivial c1).passed
      cases err <;> first | exact .refl c1 | exact hfail

end Dispatch

/-- Access control: for a denied client `process_header_end` starts and serves nothing exactly
when the branches that do not ask for access have nothing to start. The end of a body asks for
no access at all. -/
theorem denied_unserved_iff (e : Config) (hb : e.build.accessControl = true) (c c' : Conn)
    (hd : (exec (prepareRequest e) c).req.access e = .deny) :
    (Unserved c (exec (processHeaderEnd e) c) ↔
      (value (prepareRequest e) c = true → (exec (prepareRequest e) c).idle e = true)) ∧
    (Unserved c' (exec (writeBody e) c') ↔ c'.bodyIdle e = true) := by
  refine ⟨?_, writeBody_unserved_iff e c'⟩
  have htrace := (prepareRequest_passed (S := fun _ => False) e c).eq
  rw [unserved_after htrace]
  simp only [processHeaderEnd, exec_bind]
  generalize exec (prepareRequest e) c = c1 at hd
  cases value (prepareRequest e) c with
  | true =>
    simp only [if_true, true_implies]
    exact dispatchRequest_unserved_iff e c1 hb hd
  | false =>
    simp only [Bool.false_eq_true, if_false, exec_pure, false_implies, iff_true]
    exact Passed.refl c1

/-- Everyone is denied. -/
def closedBuild : Config :=
  { cgiBuild with
    build := { cgi := true, accessControl := true }
    accessHostList := fun _ => [⟨str "*", .deny⟩]
    fnmatch := fun _ _ => true }

/-- The script of a denied client runs. -/
theorem denied_served :
    closedBuild.build.accessControl = true ∧
      (exec (prepareRequest closedBuild) (scriptRequest 5)).req.access closedBuild = .deny ∧
      ¬Unserved (scriptRequest 5) (exec (processHeaderEnd closedBuild) (scriptRequest 5)) := by
  have hstarted : Site.startCgi ∈
      (exec (processHeaderEnd closedBuild) (scriptRequest 5)).trace.map (·.site) := by
    decide +kernel
  exact ⟨rfl, by decide +kernel, not_passed rfl hstarted (fun h => h (.inl rfl))⟩

theorem denied_unserved_script :
    (Unserved (scriptRequest 95) (exec (processHeaderEnd closedBuild) (scriptRequest 95)) ↔
      (value (prepareRequest closedBuild) (scriptRequest 95) = true →
        (exec (prepareRequest closedBuild) (scriptRequest 95)).idle closedBuild = true)) ∧
    (Unserved {} (exec (writeBody closedBuild) {}) ↔ Conn.bodyIdle closedBuild {} = true) :=
  denied_unserved_iff closedBuild rfl (scriptRequest 95) {} (by decide +kernel)

end Crotalus
