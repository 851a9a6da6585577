import Crotalus.Spec.Environment
import Crotalus.Spec.Header
import Mathlib.Data.List.Nodup
import Mathlib.Data.List.TakeWhile

namespace Crotalus

open Stateful

/-! The names of the variables that `process_option_line` and `complete_env` give a program. -/

/-- The lines of the header, one after the other; a bad one ends the request. -/
def processOptionLines (e : Config) : List Text → Srv Bool
  | [] => return true
  | line::lines => do
    if ← processOptionLine e line then processOptionLines e lines else return false

/-- Names and values of the header lines. -/
def headerFields (lines : List Text) : List (Text × Text) := lines.filterMap splitOption

/-- The fields that have a value: the others are passed by. -/
def filledFields (lines : List Text) : List (Text × Text) :=
  (headerFields lines).filter fun f => f.2≠[]

/-- The server keeps such a field to itself. -/
def FieldKept (e : Config) (r : Request) (name : Text) : Prop :=
  startsWith name (str "ACCEPT_ENCODING") ∨ name=str "ACCEPT" ∨
    name=str "CONTENT_TYPE" ∧ r.contentType=none ∨
    name=str "CONTENT_LENGTH" ∧ r.contentLength=none ∨
    name=str "CONNECTION" ∧ e.kaMax≠0 ∧ r.keepalive≠.stopped ∨
    name=str "HOST" ∧ r.headerHost=none ∨
    name=str "IF_MODIFIED_SINCE" ∧ r.ifModifiedSince=none ∨
    name=str "RANGE" ∧ r.ranges.head?.map (·.stop)=some (2^31-1)

instance (e : Config) (r : Request) (name : Text) : Decidable (FieldKept e r name) :=
  instDecidableOr

/-- The variables that a field becomes: those of `Referer` are added twice. -/
def fieldVars (e : Config) (r : Request) (f : Text × Text) : List Text :=
  if FieldKept e r f.1 then []
  else if f.1=str "REFERER" then [envString true f.1 f.2,envString true f.1 f.2]
  else [envString true f.1 f.2]

/-- What `r'` has in its environment besides what `r` has. -/
def Grows (r r' : Request) (vars : List Text) : Prop :=
  ∀ n own,EnvVars n r own → EnvVars n r' (own++vars)

theorem Grows.same {r r' : Request} (henv : r'.cgiEnv=r.cgiEnv)
    (hindex : r'.cgiEnvIndex=r.cgiEnvIndex) : Grows r r' [] := by
  intro n own h
  rw [List.append_nil]
  exact ⟨hindex.trans h.1,henv ▸ h.2⟩

theorem Grows.trans {r r' r'' : Request} {vars vars' : List Text} (h : Grows r r' vars)
    (h' : Grows r' r'' vars') : Grows r r'' (vars++vars') := by
  intro n own hown
  rw [← List.append_assoc]
  exact h' n _ (h n own hown)

theorem grows_addCgiEnv {key val : Text} {b : Bool} {c : Conn}
    (h : value (addCgiEnv key val b) c=true) :
    Grows c.req (exec (addCgiEnv key val b) c).req [envString b key val] :=
  fun _ _ hown => hown.addCgiEnv h

/-- A field named `name` leaves alone what the other fields are tested against. -/
structure OnlyField (name : Text) (r r' : Request) : Prop where
  contentType : name≠str "CONTENT_TYPE" → r'.contentType=r.contentType
  contentLength : name≠str "CONTENT_LENGTH" → r'.contentLength=r.contentLength
  keepalive : name≠str "CONNECTION" → r'.keepalive=r.keepalive
  headerHost : name≠str "HOST" → r'.headerHost=r.headerHost
  modified : name≠str "IF_MODIFIED_SINCE" → r'.ifModifiedSince=r.ifModifiedSince
  ranges : name≠str "RANGE" → r'.ranges=r.ranges

theorem OnlyField.refl (name : Text) (r : Request) : OnlyField name r r :=
  ⟨fun _ => rfl,fun _ => rfl,fun _ => rfl,fun _ => rfl,fun _ => rfl,fun _ => rfl⟩

theorem OnlyField.addCgiEnv {name key val : Text} {b : Bool} {r : Request} {c : Conn}
    (h : OnlyField name r c.req) (hadd : value (addCgiEnv key val b) c=true) :
    OnlyField name r (exec (addCgiEnv key val b) c).req := by
  rw [(addCgiEnv_true hadd).2]
  exact ⟨h.contentType,h.contentLength,h.keepalive,h.headerHost,h.modified,h.ranges⟩

/-- What becomes of a field does not depend on the fields before it that have other names. -/
theorem OnlyField.fieldKept {e : Config} {name other : Text} {r r' : Request}
    (h : OnlyField name r r') (hne : other≠name) :
    FieldKept e r' other ↔ FieldKept e r other := by
  have hand : ∀ {p q : Prop} (s : Text),(name≠s → (p ↔ q)) →
      (other=s ∧ p ↔ other=s ∧ q) := by
    intro p q s hpq
    apply and_congr_right
    intro heq
    exact hpq fun hname => hne (heq.trans hname.symm)
  unfold FieldKept
  rw [hand (str "CONTENT_TYPE") fun hn => by rw [h.contentType hn],
    hand (str "CONTENT_LENGTH") fun hn => by rw [h.contentLength hn],
    hand (str "CONNECTION") fun hn => by rw [h.keepalive hn],
    hand (str "HOST") fun hn => by rw [h.headerHost hn],
    hand (str "IF_MODIFIED_SINCE") fun hn => by rw [h.modified hn],
    hand (str "RANGE") fun hn => by rw [h.ranges hn]]

theorem OnlyField.fieldVars {e : Config} {name : Text} {r r' : Request} {f : Text × Text}
    (h : OnlyField name r r') (hne : f.1≠name) : fieldVars e r' f=fieldVars e r f := by
  unfold Crotalus.fieldVars
  simp only [h.fieldKept hne]

/-- The server does not keep a field of another name than those it knows. -/
theorem not_fieldKept {e : Config} {r : Request} {name : Text}
    (hfirst : startsWith name (str "ACCEPT_ENCODING")=false)
    (hnames : name∉[str "ACCEPT",str "CONTENT_TYPE",str "CONTENT_LENGTH",str "CONNECTION",
      str "HOST",str "IF_MODIFIED_SINCE"])
    (hrange : ¬(name=str "RANGE" ∧ r.ranges.head?.map (·.stop)=some (2^31-1))) :
    ¬FieldKept e r name := by
  simp only [List.mem_cons,List.not_mem_nil,or_false,not_or] at hnames
  obtain ⟨h1,h2,h3,h4,h5,h6⟩ := hnames
  unfold FieldKept
  rw [hfirst]
  rintro (h|h|h|h|h|h|h|h)
  · cases h
  · exact h1 h
  · exact h2 h.1
  · exact h3 h.1
  · exact h4 h.1
  · exact h5 h.1
  · exact h6 h.1
  · exact hrange h

/-- What the fields that the server knows become: they are kept, or `REFERER` and `USER_AGENT`
are added here, and what is left over is added by the caller. -/
structure KnownField (e : Config) (f : Text × Text) (r r' : Request) (known : Option Bool) :
    Prop where
  only : OnlyField f.1 r r'
  host : f.1=str "HOST" → r'.headerHost≠none
  kept : known=some true → Grows r r' (Crotalus.fieldVars e r f)
  left : known=none → ∃ vars,Grows r r' vars ∧
    Crotalus.fieldVars e r f=vars++[envString true f.1 f.2]

theorem fieldVars_kept {e : Config} {r : Request} {f : Text × Text} (h : FieldKept e r f.1) :
    fieldVars e r f=[] := if_pos h

theorem KnownField.set {e : Config} {f : Text × Text} {r r' : Request}
    (honly : OnlyField f.1 r r') (hhost : f.1=str "HOST" → r'.headerHost≠none)
    (hkept : FieldKept e r f.1) (henv : r'.cgiEnv=r.cgiEnv)
    (hindex : r'.cgiEnvIndex=r.cgiEnvIndex) : KnownField e f r r' (some true) where
  only := honly
  host := hhost
  kept := fun _ => (fieldVars_kept hkept).symm ▸ .same henv hindex
  left := fun h => by cases h

/-- What `m` does with a field if it accepts it. -/
def TakesField (e : Config) (f : Text × Text) (c : Conn) (m : Srv (Option Bool)) : Prop :=
  value m c≠some false → KnownField e f c.req (exec m c).req (value m c)

theorem TakesField.ite {e : Config} {f : Text × Text} {c : Conn} {p : Prop} [Decidable p]
    {m n : Srv (Option Bool)} (hm : p → TakesField e f c m) (hn : ¬p → TakesField e f c n) :
    TakesField e f c (if p then m else n) := by
  split
  · exact hm ‹_›
  · exact hn ‹_›

theorem TakesField.set {e : Config} {f : Text × Text} {c : Conn} {g : Request → Request}
    (honly : OnlyField f.1 c.req (g c.req)) (hhost : f.1=str "HOST" → (g c.req).headerHost≠none)
    (hkept : FieldKept e c.req f.1) (henv : (g c.req).cgiEnv=c.req.cgiEnv)
    (hindex : (g c.req).cgiEnvIndex=c.req.cgiEnvIndex) :
    TakesField e f c (modReq g >>= fun _ => pure (some true)) :=
  fun _ => .set honly hhost hkept henv hindex

theorem TakesField.pass {e : Config} {f : Text × Text} {c : Conn}
    (hhost : f.1=str "HOST" → c.req.headerHost≠none) (hkept : ¬FieldKept e c.req f.1)
    (hreferer : f.1≠str "REFERER") : TakesField e f c (pure none) := fun _ => {
  only := .refl _ _
  host := hhost
  kept := fun h => by cases h
  left := fun _ => ⟨[],.same rfl rfl,by
    rw [fieldVars,if_neg hkept,if_neg hreferer]
    rfl⟩ }

theorem rangeOption_handles {e : Config} {val : Text} {c : Conn} :
    TakesField e (str "RANGE",val) c (rangeOption e val) := by
  have hhost : str "RANGE"=str "HOST" → c.req.headerHost≠none := fun h => absurd h (by decide)
  change TakesField e _ c (if c.req.ranges.head?.map (·.stop)=some (2^31-1) then _ else _)
  refine .ite (fun h => ?error) fun h => ?parse
  case error =>
    exact fun _ => .set (.refl _ _) hhost (by simp [FieldKept,h]) rfl rfl
  case parse =>
    have hkept : ¬FieldKept e c.req (str "RANGE") :=
      not_fieldKept (by decide) (by decide) fun hr => h hr.2
    change TakesField e _ c (do
      modReq fun r => { r with
        ranges := (c.req.rangeParse val).1.ranges
        numranges := (c.req.rangeParse val).1.numranges }
      if (c.req.rangeParse val).2 then return none
      else
        sendRInvalidRange e
        return some false)
    cases hok : (c.req.rangeParse val).2 with
    | false => exact fun hv => absurd rfl hv
    | true =>
      intro _
      refine ⟨⟨fun _ => rfl,fun _ => rfl,fun _ => rfl,fun _ => rfl,fun _ => rfl,
        fun hn => absurd rfl hn⟩,hhost,fun hv => (by cases hv),fun _ => ⟨[],.same rfl rfl,?_⟩⟩
      rw [fieldVars,if_neg hkept,if_neg (show str "RANGE"≠str "REFERER" by decide)]
      rfl

theorem addReferer_handles {e : Config} {val : Text} {c : Conn} :
    TakesField e (str "REFERER",val) c (do
      modReq fun r => { r with headerReferer := some val }
      if ← addCgiEnv (str "REFERER") val true then return none else return some false) := by
  let c1 : Conn := { c with req := { c.req with headerReferer := some val } }
  let c2 := exec (addCgiEnv (str "REFERER") val true) c1
  let m : Bool → Srv (Option Bool) := fun ok => if ok then pure none else pure (some false)
  have honly : OnlyField (str "REFERER") c.req c1.req :=
    ⟨fun _ => rfl,fun _ => rfl,fun _ => rfl,fun _ => rfl,fun _ => rfl,fun _ => rfl⟩
  have hhost : str "REFERER"=str "HOST" → c2.req.headerHost≠none := fun h => absurd h (by decide)
  have hvars : fieldVars e c.req (str "REFERER",val)=
      [envString true (str "REFERER") val]++[envString true (str "REFERER") val] := by
    have hkept : ¬FieldKept e c.req (str "REFERER") :=
      not_fieldKept (by decide) (by decide) fun hr => absurd hr.1 (by decide)
    rw [fieldVars,if_neg hkept,if_pos rfl]
    rfl
  have hgrows : value (addCgiEnv (str "REFERER") val true) c1=true →
      Grows c.req c2.req [envString true (str "REFERER") val] :=
    fun hadd => (Grows.same rfl rfl).trans (grows_addCgiEnv hadd)
  change value (m (value (addCgiEnv (str "REFERER") val true) c1)) c2≠some false →
    KnownField e _ c.req (exec (m (value (addCgiEnv (str "REFERER") val true) c1)) c2).req
      (value (m (value (addCgiEnv (str "REFERER") val true) c1)) c2)
  cases hadd : value (addCgiEnv (str "REFERER") val true) c1 with
  | false => exact fun hv => absurd rfl hv
  | true =>
    exact fun _ => ⟨honly.addCgiEnv hadd,hhost,fun h => (by cases h),
      fun _ => ⟨_,hgrows hadd,hvars⟩⟩

theorem addUserAgent_handles {e : Config} {val : Text} {c : Conn} :
    TakesField e (str "USER_AGENT",val) c (do
      modReq fun r => { r with headerUserAgent := some val }
      return some (← addCgiEnv (str "USER_AGENT") val true)) := by
  let c1 : Conn := { c with req := { c.req with headerUserAgent := some val } }
  let c2 := exec (addCgiEnv (str "USER_AGENT") val true) c1
  have honly : OnlyField (str "USER_AGENT") c.req c1.req :=
    ⟨fun _ => rfl,fun _ => rfl,fun _ => rfl,fun _ => rfl,fun _ => rfl,fun _ => rfl⟩
  have hhost : str "USER_AGENT"=str "HOST" → c2.req.headerHost≠none :=
    fun h => absurd h (by decide)
  have hvars : fieldVars e c.req (str "USER_AGENT",val)=
      [envString true (str "USER_AGENT") val] := by
    have hkept : ¬FieldKept e c.req (str "USER_AGENT") :=
      not_fieldKept (by decide) (by decide) fun hr => absurd hr.1 (by decide)
    rw [fieldVars,if_neg hkept,if_neg (show str "USER_AGENT"≠str "REFERER" by decide)]
  change some (value (addCgiEnv (str "USER_AGENT") val true) c1)≠some false →
    KnownField e _ c.req c2.req (some (value (addCgiEnv (str "USER_AGENT") val true) c1))
  cases hadd : value (addCgiEnv (str "USER_AGENT") val true) c1 with
  | false => exact fun hv => absurd rfl hv
  | true =>
    refine fun _ => ⟨honly.addCgiEnv hadd,hhost,fun _ => ?_,fun h => (by cases h)⟩
    rw [hvars]
    exact (Grows.same rfl rfl).trans (grows_addCgiEnv hadd)

theorem knownOption_handles (e : Config) (name val : Text) (c : Conn) :
    TakesField e (name,val) c (knownOption e name val) := by
  have hnot : ∀ {s : Text},s≠str "HOST" → name=s → ∀ r : Request,name=str "HOST" →
      r.headerHost≠none := fun hs h _ hh => absurd (h.symm.trans hh) hs
  change TakesField e (name,val) c (if startsWith name (str "ACCEPT_ENCODING") then _ else _)
  refine .ite (fun h => ?encoding) fun h1 => .ite (fun h => ?accept) fun h2 =>
    .ite (fun h => ?type) fun h3 => .ite (fun h => ?length) fun h4 =>
    .ite (fun h => ?connection) fun h5 => .ite (fun h => ?host) fun h6 =>
    .ite (fun h => ?modified) fun h7 => .ite (fun h => ?referer) fun h8 =>
    .ite (fun h => ?range) fun h9 => .ite (fun h => ?agent) fun h10 => ?other
  case encoding =>
    refine .set ⟨fun _ => rfl,fun _ => rfl,fun _ => rfl,fun _ => rfl,fun _ => rfl,fun _ => rfl⟩
      (fun hh => ?_) (.inl h) rfl rfl
    rw [show name=str "HOST" from hh] at h
    exact absurd h (by decide)
  case accept =>
    exact fun _ => .set (.refl _ _) (hnot (by decide) h _) (.inr (.inl h)) rfl rfl
  case type =>
    exact .set ⟨fun hn => absurd h.1 hn,fun _ => rfl,fun _ => rfl,fun _ => rfl,fun _ => rfl,
      fun _ => rfl⟩ (hnot (by decide) h.1 _) (.inr (.inr (.inl h))) rfl rfl
  case length =>
    exact .set ⟨fun _ => rfl,fun hn => absurd h.1 hn,fun _ => rfl,fun _ => rfl,fun _ => rfl,
      fun _ => rfl⟩ (hnot (by decide) h.1 _) (.inr (.inr (.inr (.inl h)))) rfl rfl
  case connection =>
    exact .set ⟨fun _ => rfl,fun _ => rfl,fun hn => absurd h.1 hn,fun _ => rfl,fun _ => rfl,
      fun _ => rfl⟩ (hnot (by decide) h.1 _) (by simp [FieldKept,h]) rfl rfl
  case host =>
    exact .set ⟨fun _ => rfl,fun _ => rfl,fun _ => rfl,fun hn => absurd h.1 hn,fun _ => rfl,
      fun _ => rfl⟩ (fun _ hh => by cases hh) (by simp [FieldKept,h]) rfl rfl
  case modified =>
    exact .set ⟨fun _ => rfl,fun _ => rfl,fun _ => rfl,fun _ => rfl,fun hn => absurd h.1 hn,
      fun _ => rfl⟩ (hnot (by decide) h.1 _) (by simp [FieldKept,h]) rfl rfl
  case referer =>
    rw [h]
    exact addReferer_handles
  case range =>
    rw [h]
    exact rangeOption_handles
  case agent =>
    rw [h]
    exact addUserAgent_handles
  case other =>
    refine .pass (fun hh hhost => h6 ⟨hh,hhost⟩) ?_ h8
    simp only [FieldKept,h1,h2,h3,h4,h5,h6,h7,h9]
    simp

/-- A field with a value that is taken. -/
theorem processOptionLine_field {e : Config} {line name val : Text} {c : Conn}
    (hsplit : splitOption line=some (name,val)) (hval : val≠[])
    (h : value (processOptionLine e line) c=true) :
    Grows c.req (exec (processOptionLine e line) c).req (fieldVars e c.req (name,val)) ∧
      OnlyField name c.req (exec (processOptionLine e line) c).req ∧
      (name=str "HOST" → (exec (processOptionLine e line) c).req.headerHost≠none) := by
  let c1 := exec (mark .optionLine) c
  let m : Option Bool → Srv Bool := fun known => known.elim (addCgiEnv name val true) pure
  have hrun : processOptionLine e line=(do
      mark .optionLine
      m (← knownOption e name val)) := by
    rw [processOptionLine,hsplit]
    simp only [if_neg hval]
    congr 1
    funext _
    congr 1
    funext known
    cases known <;> rfl
  have hhandles := knownOption_handles e name val c1
  have hfield : fieldVars e c1.req (name,val)=fieldVars e c.req (name,val) := rfl
  rw [hrun] at h ⊢
  change value (m (value (knownOption e name val) c1)) (exec (knownOption e name val) c1)=true at h
  change Grows c.req (exec (m (value (knownOption e name val) c1))
      (exec (knownOption e name val) c1)).req _ ∧
    OnlyField name c.req (exec (m (value (knownOption e name val) c1))
      (exec (knownOption e name val) c1)).req ∧
    (name=str "HOST" → (exec (m (value (knownOption e name val) c1))
      (exec (knownOption e name val) c1)).req.headerHost≠none)
  unfold TakesField at hhandles
  generalize value (knownOption e name val) c1=known at h hhandles ⊢
  generalize exec (knownOption e name val) c1=c2 at h hhandles ⊢
  cases known with
  | none =>
    have hknown := hhandles (by simp)
    obtain ⟨vars,hgrows,hvars⟩ := hknown.left rfl
    refine ⟨?_,hknown.only.addCgiEnv h,fun hh => ?_⟩
    · rw [← hfield,hvars]
      exact hgrows.trans (grows_addCgiEnv h)
    · change (exec (addCgiEnv name val true) c2).req.headerHost≠none
      rw [(addCgiEnv_true h).2]
      exact hknown.host hh
  | some ok =>
    have hok : ok=true := h
    subst hok
    have hknown := hhandles (by simp)
    exact ⟨hfield ▸ hknown.kept rfl,hknown.only,hknown.host⟩

/-- The variables of the whole header. -/
def headerVars (e : Config) (r : Request) (lines : List Text) : List Text :=
  (filledFields lines).flatMap (fieldVars e r)

theorem filledFields_cons_empty {line name : Text} {lines : List Text}
    (h : splitOption line=some (name,[])) : filledFields (line::lines)=filledFields lines := by
  rw [filledFields,headerFields,List.filterMap_cons_some h,List.filter_cons_of_neg (by simp)]
  rfl

theorem filledFields_cons {line name val : Text} {lines : List Text}
    (h : splitOption line=some (name,val)) (hval : val≠[]) :
    filledFields (line::lines)=(name,val)::filledFields lines := by
  rw [filledFields,headerFields,List.filterMap_cons_some h,
    List.filter_cons_of_pos (by simpa using hval)]
  rfl

/-- The fields of a header in which no name comes twice add what the request line left. -/
theorem processOptionLines_vars {e : Config} {lines : List Text} {c : Conn}
    (hnames : ((headerFields lines).map Prod.fst).Nodup)
    (h : value (processOptionLines e lines) c=true) :
    Grows c.req (exec (processOptionLines e lines) c).req (headerVars e c.req lines) ∧
      ((exec (processOptionLines e lines) c).req.headerHost≠none ↔
        c.req.headerHost≠none ∨ str "HOST"∈(filledFields lines).map Prod.fst) := by
  induction lines generalizing c with
  | nil => exact ⟨.same rfl rfl,by simp [processOptionLines,filledFields,headerFields]⟩
  | cons line lines ih =>
    have hfirst : value (processOptionLine e line) c=true := by
      cases hv : value (processOptionLine e line) c with
      | true => rfl
      | false =>
        simp only [processOptionLines,value_bind,hv,Bool.false_eq_true,if_false,
          value_pure] at h
    simp only [processOptionLines,value_bind,exec_bind,hfirst,if_true] at h ⊢
    cases hsplit : splitOption line with
    | none =>
      have hbad : value (processOptionLine e line) c=false := by
        rw [processOptionLine,hsplit]
        rfl
      rw [hfirst] at hbad
      cases hbad
    | some f =>
      obtain ⟨name,val⟩ := f
      rw [headerFields,List.filterMap_cons_some hsplit,List.map_cons,List.nodup_cons] at hnames
      obtain ⟨hnew,hnames⟩ := hnames
      obtain ⟨hgrows,hhost⟩ := ih hnames h
      by_cases hval : val=[]
      · have hsame : (exec (processOptionLine e line) c).req=c.req := by
          rw [processOptionLine,hsplit]
          simp only [if_pos hval]
          rfl
        rw [hval] at hsplit
        rw [hsame] at hgrows hhost
        rw [headerVars,filledFields_cons_empty hsplit]
        exact ⟨hgrows,hhost⟩
      · obtain ⟨hfield,honly,hset⟩ := processOptionLine_field hsplit hval hfirst
        have hother : ∀ f∈filledFields lines,f.1≠name := by
          intro f hf heq
          have hmem := List.mem_map_of_mem (f := Prod.fst) (List.mem_of_mem_filter hf)
          rw [heq] at hmem
          exact hnew hmem
        have hrest : headerVars e (exec (processOptionLine e line) c).req lines=
            headerVars e c.req lines :=
          List.flatMap_congr fun f hf => honly.fieldVars (hother f hf)
        rw [hrest] at hgrows
        rw [headerVars,filledFields_cons hsplit hval,List.flatMap_cons,List.map_cons,
          List.mem_cons,hhost]
        refine ⟨hfield.trans hgrows,?_⟩
        by_cases hh : str "HOST"=name
        · exact ⟨fun _ => .inr (.inl hh),fun _ => .inl (hset hh.symm)⟩
        · rw [honly.headerHost fun h => hh h.symm]
          simp only [hh,false_or]

/-! Names of variables. -/

/-- A variable is named by what stands in front of its first `=`. -/
def varName (s : Text) : Text := s.takeWhile fun b => b≠61

theorem varName_append (key val : Text) : varName (key++61::val)=varName key := by
  induction key with
  | nil => rfl
  | cons b key ih =>
    by_cases hb : b=61
    · rw [hb]
      rfl
    · simp only [varName,List.cons_append,List.takeWhile_cons,decide_eq_true hb,if_true]
      exact congrArg (b::·) ih

theorem varName_header (key val : Text) :
    varName (envString true key val)=str "HTTP_"++varName key := by
  have hplain : ∀ b∈str "HTTP_",decide (b≠61)=true := by decide +kernel
  rw [envString,if_pos rfl,List.append_assoc,List.singleton_append,varName_append,varName,
    List.takeWhile_append_of_pos hplain]
  rfl

theorem varName_entry {kv : Text × Text} (h : 61∉kv.1) : varName (entryText kv)=kv.1 := by
  have hplain : ∀ b∈kv.1,decide (b≠61)=true := by
    intro b hb
    apply decide_eq_true
    rintro rfl
    exact h hb
  rw [entryText,envString,if_neg Bool.false_ne_true,List.nil_append,List.append_assoc,
    List.singleton_append,varName_append,varName,List.takeWhile_eq_self_iff.mpr hplain]

/-- The names that `complete_env` has for a request, but for that of its host. -/
def plainKeys (e : Config) (r : Request) : List Text :=
  (envEntries e { r with headerHost := none }).map Prod.fst

def plainNames : List Text :=
  [str "REQUEST_METHOD",str "SERVER_ADDR",str "SERVER_PROTOCOL",str "REQUEST_URI",str "PATH_INFO",
    str "PATH_TRANSLATED",str "SCRIPT_NAME",str "QUERY_STRING",str "REMOTE_ADDR",
    str "REMOTE_PORT",str "CONTENT_TYPE",str "CONTENT_LENGTH"]

theorem plainNames_apart : plainNames.Nodup ∧
    ∀ key∈plainNames,61∉key ∧ ¬startsWith key (str "HTTP_") := by
  decide

theorem ifSet_sublist (key : String) (v : Option Text) :
    ((ifSet key v).map Prod.fst).Sublist [str key] := by
  cases v with
  | none => exact List.nil_sublist _
  | some val => exact .refl _

theorem plainKeys_sublist (e : Config) (r : Request) : (plainKeys e r).Sublist plainNames := by
  have hpost : (((if r.method=.post then
      [(str "CONTENT_TYPE",r.contentType.getD e.defaultType)]++ifSet "CONTENT_LENGTH" r.contentLength
    else []) : List (Text × Text)).map Prod.fst).Sublist
      [str "CONTENT_TYPE",str "CONTENT_LENGTH"] := by
    split
    · exact (ifSet_sublist _ _).cons_cons _
    · exact List.nil_sublist _
  simp only [plainKeys,envEntries,List.map_append,List.map_cons,List.map_nil]
  have hall := ((((((List.Sublist.refl [str "REQUEST_METHOD"]).append (.refl [])).append
    (.refl [str "SERVER_ADDR",str "SERVER_PROTOCOL",str "REQUEST_URI"])).append
    (ifSet_sublist "PATH_INFO" r.pathInfo)).append
    (ifSet_sublist "PATH_TRANSLATED" r.pathTranslated)).append
    (.refl [str "SCRIPT_NAME"])).append (ifSet_sublist "QUERY_STRING" r.queryString)
  exact (hall.append (.refl [str "REMOTE_ADDR",str "REMOTE_PORT"])).append hpost

/-- The name of the host's variable, if there is one. -/
def hostKeys (r : Request) : List Text := if r.headerHost=none then [] else [str "HTTP_HOST"]

theorem mem_hostKeys {r : Request} {key : Text} :
    key∈hostKeys r ↔ r.headerHost≠none ∧ key=str "HTTP_HOST" := by
  unfold hostKeys
  split
  · simp [*]
  · simp [*]

theorem hostKeys_nodup (r : Request) : (hostKeys r).Nodup := by
  unfold hostKeys
  split
  · exact List.nodup_nil
  · exact List.nodup_singleton _

theorem envKeys_perm (e : Config) (r : Request) : ((envEntries e r).map Prod.fst).Perm
    (hostKeys r++plainKeys e r) := by
  cases h : r.headerHost with
  | none =>
    have hr : { r with headerHost := none }=r := by rw [← h]
    rw [hostKeys,if_pos h,plainKeys,hr]
    exact .refl _
  | some host =>
    simp only [hostKeys,plainKeys,envEntries,h]
    exact List.Perm.swap _ _ _

/-- The fields that become variables. -/
def addedFields (e : Config) (r : Request) (lines : List Text) : List (Text × Text) :=
  (filledFields lines).filter fun f => ¬FieldKept e r f.1

/-- The names of the variables that a field becomes. -/
def fieldNames (f : Text × Text) : List Text :=
  if f.1=str "REFERER" then [str "HTTP_"++varName f.1,str "HTTP_"++varName f.1]
  else [str "HTTP_"++varName f.1]

theorem mem_fieldNames {f : Text × Text} {s : Text} :
    s∈fieldNames f ↔ s=str "HTTP_"++varName f.1 := by
  unfold fieldNames
  split <;> simp

theorem headerVars_names (e : Config) (r : Request) (lines : List Text) :
    (headerVars e r lines).map varName=(addedFields e r lines).flatMap fieldNames := by
  rw [headerVars,addedFields]
  induction filledFields lines with
  | nil => rfl
  | cons f fs ih =>
    rw [List.flatMap_cons,List.map_append,ih]
    by_cases hkept : FieldKept e r f.1
    · rw [fieldVars_kept hkept,List.filter_cons_of_neg (by simpa using hkept)]
      rfl
    · rw [List.filter_cons_of_pos (by simpa using hkept),List.flatMap_cons,fieldVars,
        if_neg hkept,fieldNames]
      split <;> simp only [List.map_cons,List.map_nil,varName_header]

theorem mem_headerNames {e : Config} {r : Request} {lines : List Text} {s : Text} :
    str "HTTP_"++s∈(headerVars e r lines).map varName ↔
      s∈(addedFields e r lines).map fun f => varName f.1 := by
  rw [headerVars_names,List.mem_flatMap,List.mem_map]
  apply exists_congr
  intro f
  rw [mem_fieldNames,List.append_cancel_left_eq,eq_comm]

/-- The header's variables are named apart when `Referer` is missing and no two names are one
name up to an equals sign. -/
theorem headerNames_nodup {e : Config} {r : Request} {lines : List Text} :
    ((headerVars e r lines).map varName).Nodup ↔
      str "REFERER"∉(filledFields lines).map Prod.fst ∧
        ((addedFields e r lines).map fun f => varName f.1).Nodup := by
  have hreferer : ∀ f∈filledFields lines,f.1=str "REFERER" → f∈addedFields e r lines := by
    intro f hf hname
    apply List.mem_filter.mpr
    refine ⟨hf,decide_eq_true ?_⟩
    rw [hname]
    exact not_fieldKept (by decide) (by decide) fun hr => absurd hr.1 (by decide)
  have hsingle : str "REFERER"∉(filledFields lines).map Prod.fst →
      (addedFields e r lines).flatMap fieldNames=
        ((addedFields e r lines).map fun f => varName f.1).map (str "HTTP_"++·) := by
    intro hnone
    rw [List.map_map,List.map_eq_flatMap]
    apply List.flatMap_congr
    intro f hf
    rw [fieldNames,if_neg]
    · rfl
    · intro hname
      exact hnone (hname ▸ List.mem_map_of_mem (List.mem_of_mem_filter hf))
  have hinj : Function.Injective (str "HTTP_"++·) := fun s t h => List.append_cancel_left h
  rw [headerVars_names]
  constructor
  · intro h
    have hnone : str "REFERER"∉(filledFields lines).map Prod.fst := by
      intro hmem
      obtain ⟨f,hf,hname⟩ := List.mem_map.mp hmem
      have htwice := (List.nodup_flatMap.mp h).1 f (hreferer f hf hname)
      rw [fieldNames,if_pos hname] at htwice
      exact (List.nodup_cons.mp htwice).1 (List.mem_singleton_self _)
    rw [hsingle hnone,List.nodup_map_iff hinj] at h
    exact ⟨hnone,h⟩
  · rintro ⟨hnone,h⟩
    rw [hsingle hnone,List.nodup_map_iff hinj]
    exact h

/-- The request names its host: in its line or in its header. -/
def HostGiven (r : Request) (lines : List Text) : Prop :=
  r.headerHost≠none ∨ str "HOST"∈(filledFields lines).map Prod.fst

/-- No two variables get one name. `r` is the request before its header, `keys` are the names
that `complete_env` has for it. -/
structure NamesApart (e : Config) (r : Request) (lines keys : List Text) : Prop where
  referer : str "REFERER"∉(filledFields lines).map Prod.fst
  fields : ((addedFields e r lines).map fun f => varName f.1).Nodup
  host : HostGiven r lines → str "HOST"∉(addedFields e r lines).map fun f => varName f.1
  common : (e.commonCgiEnv.map varName).Nodup
  keys : ∀ s∈e.commonCgiEnv,varName s∉keys

/-- All variables of a complete environment. -/
def allVars (e : Config) (r r' : Request) (lines : List Text) : List Text :=
  e.commonCgiEnv++headerVars e r lines++(envEntries e r').map entryText

theorem entryNames (e : Config) (r : Request) :
    ((envEntries e r).map entryText).map varName=(envEntries e r).map Prod.fst := by
  rw [List.map_map]
  apply List.map_congr_left
  intro kv hkv
  apply varName_entry
  have hmem := (envKeys_perm e r).subset (List.mem_map_of_mem hkv)
  rcases List.mem_append.mp hmem with h|h
  · rw [(mem_hostKeys.mp h).2]
    decide
  · exact (plainNames_apart.2 _ ((plainKeys_sublist e r).subset h)).1

theorem startsWith_append (s t : Text) : startsWith (s++t) s=true := by
  rw [startsWith,List.take_left]
  exact decide_eq_true rfl

/-- The common names and those of `complete_env` are none of the header's. -/
theorem keys_apart {e : Config} {r r' : Request} {lines : List Text}
    (hcommon : ∀ s∈e.commonCgiEnv,¬startsWith (varName s) (str "HTTP_")) :
    ∀ a∈e.commonCgiEnv.map varName++plainKeys e r',
      ∀ b∈(headerVars e r lines).map varName++hostKeys r',a≠b := by
  intro a ha b hb heq
  have hno : ¬startsWith a (str "HTTP_") := by
    rcases List.mem_append.mp ha with h|h
    · obtain ⟨s,hs,rfl⟩ := List.mem_map.mp h
      exact hcommon s hs
    · exact (plainNames_apart.2 _ ((plainKeys_sublist e r').subset h)).2
  apply hno
  rw [heq]
  rcases List.mem_append.mp hb with h|h
  · rw [headerVars_names,List.mem_flatMap] at h
    obtain ⟨f,-,hf⟩ := h
    rw [mem_fieldNames.mp hf]
    exact startsWith_append _ _
  · rw [(mem_hostKeys.mp h).2]
    decide

theorem hostName_nodup {e : Config} {r r' : Request} {lines : List Text}
    (hhost : r'.headerHost≠none ↔ HostGiven r lines) :
    ((headerVars e r lines).map varName++hostKeys r').Nodup ↔
      ((headerVars e r lines).map varName).Nodup ∧
        (HostGiven r lines → str "HOST"∉(addedFields e r lines).map fun f => varName f.1) := by
  have hhttp : str "HTTP_HOST"=str "HTTP_"++str "HOST" := by decide
  rw [← hhost,← mem_headerNames,← hhttp,List.nodup_append]
  constructor
  · rintro ⟨hnodup,-,hne⟩
    exact ⟨hnodup,fun h hmem => hne _ hmem _ (mem_hostKeys.mpr ⟨h,rfl⟩) rfl⟩
  · rintro ⟨hnodup,hnot⟩
    refine ⟨hnodup,hostKeys_nodup r',?_⟩
    intro a ha b hb heq
    obtain ⟨hset,hname⟩ := mem_hostKeys.mp hb
    rw [heq,hname] at ha
    exact hnot hset ha

theorem allNames_nodup {e : Config} {r r' : Request} {lines : List Text}
    (hcommon : ∀ s∈e.commonCgiEnv,¬startsWith (varName s) (str "HTTP_"))
    (hhost : r'.headerHost≠none ↔ HostGiven r lines) :
    ((allVars e r r' lines).map varName).Nodup ↔ NamesApart e r lines (plainKeys e r') := by
  have hperm : ((allVars e r r' lines).map varName).Perm
      (e.commonCgiEnv.map varName++plainKeys e r'++
        ((headerVars e r lines).map varName++hostKeys r')) := by
    rw [allVars,List.map_append,List.map_append,entryNames,List.append_assoc,List.append_assoc]
    apply List.Perm.append_left
    apply ((envKeys_perm e r').append_left _).trans
    rw [← List.append_assoc]
    exact List.perm_append_comm
  rw [hperm.nodup_iff,List.nodup_append,List.nodup_append,hostName_nodup hhost,headerNames_nodup]
  constructor
  · rintro ⟨⟨hc,-,hkeys⟩,⟨⟨href,hfields⟩,hh⟩,-⟩
    exact ⟨href,hfields,hh,hc,fun s hs hmem => hkeys _ (List.mem_map_of_mem hs) _ hmem rfl⟩
  · intro h
    refine ⟨⟨h.common,(plainKeys_sublist e r').nodup plainNames_apart.1,?_⟩,
      ⟨⟨h.referer,h.fields⟩,h.host⟩,keys_apart hcommon⟩
    intro a ha b hb heq
    obtain ⟨s,hs,rfl⟩ := List.mem_map.mp ha
    exact h.keys s hs (heq ▸ hb)

/-! A request from its first line to the start of its program. -/

theorem processLogline_index (e : Config) (line : Text) :
    OnSuccess true (fun _ c => c.req.cgiEnvIndex=e.commonCgiEnv.length)
      (processLogline e line) := by
  apply OnSuccess.last
  intro _
  apply OnSuccess.last
  intro _
  refine .ite (fun _ => .fails Bool.false_ne_true) fun _ => ?_
  split
  · exact .fails Bool.false_ne_true
  · apply OnSuccess.last
    intro _
    refine .ite (fun _ => .fails Bool.false_ne_true) fun _ => ?_
    split
    · exact .fails Bool.false_ne_true
    · apply OnSuccess.last
      intro _
      split
      · exact .fails Bool.false_ne_true
      · apply OnSuccess.last
        intro _
        apply OnSuccess.last
        intro r
        refine .ite (fun _ => .fails Bool.false_ne_true) fun _ => ?_
        exact fun _ _ => rfl

/-- The request as its line leaves it, and as its header does. -/
def Conn.lined (c : Conn) (e : Config) (line : Text) : Conn := exec (processLogline e line) c

def Conn.requested (c : Conn) (e : Config) (line : Text) (lines : List Text) : Conn :=
  exec (processOptionLines e lines) (c.lined e line)

/-- What is done between the header and `complete_env` leaves the environment alone, and the
host that the header gave. -/
structure EnvKept (r r' : Request) : Prop where
  cgiEnv : r'.cgiEnv=r.cgiEnv
  cgiEnvIndex : r'.cgiEnvIndex=r.cgiEnvIndex
  headerHost : r'.headerHost=r.headerHost

/-- The variables that the request has got so far. -/
def Request.gathered (r : Request) : List Text := (List.range r.cgiEnvIndex).filterMap r.cgiEnv

theorem EnvVars.gathered {r : Request} {vars : List Text} (h : EnvVars 0 r vars) :
    r.gathered=vars := by
  rw [Request.gathered,h.1,Nat.zero_add,List.range_eq_range']
  exact h.2.filterMap

/-- The variables of a header without double names are named apart just when the condition
holds, as far as `complete_env` gets; when it returns 1 there is room for the end. -/
theorem environment_namesApart (e : Config) (line : Text) (lines : List Text) (c c' : Conn)
    (hline : value (processLogline e line) c=true)
    (hlines : value (processOptionLines e lines) (c.lined e line)=true)
    (hnames : ((headerFields lines).map Prod.fst).Nodup)
    (hcommon : ∀ s∈e.commonCgiEnv,¬startsWith (varName s) (str "HTTP_"))
    (hkept : EnvKept (c.requested e line lines).req c'.req) :
    (NamesApart e (c.lined e line).req lines (plainKeys e c'.req) →
      ((exec (completeEnv e) c').req.gathered.map varName).Nodup) ∧
    (value (completeEnv e) c'=true →
      (((exec (completeEnv e) c').req.envp.map varName).Nodup ↔
        NamesApart e (c.lined e line).req lines (plainKeys e c'.req)) ∧
      (exec (completeEnv e) c').req.envp.length < cgiEnvMax+1 ∧
      (exec (completeEnv e) c').req.cgiEnv (exec (completeEnv e) c').req.envp.length=none) := by
  obtain ⟨hgrows,hhost⟩ := processOptionLines_vars hnames hlines
  have hown := hgrows _ _ (envVars_start (processLogline_index e line c hline))
  rw [List.nil_append] at hown
  have hvars : EnvVars e.commonCgiEnv.length c'.req (headerVars e (c.lined e line).req lines) :=
    ⟨hkept.cgiEnvIndex.trans hown.1,hkept.cgiEnv ▸ hown.2⟩
  have hgiven : c'.req.headerHost≠none ↔ HostGiven (c.lined e line).req lines := by
    rw [hkept.headerHost]
    exact hhost
  have hiff := allNames_nodup (e := e) hcommon hgiven
  constructor
  · intro h
    obtain ⟨k,-,hall⟩ := completeEnv_array hvars
    rw [hall.gathered]
    refine List.Nodup.sublist (List.Sublist.map _ ?_) (hiff.mpr h)
    exact .append_left ((List.take_sublist _ _).map _) _
  · intro h
    have henvp := completeEnv_envp hvars h
    obtain ⟨k,hall,hindex,-⟩ := completeEnv_array hvars
    obtain ⟨hle,hend⟩ := completeEnv_ends hvars h
    rw [hall h,List.take_length,← henvp,Nat.zero_add] at hindex
    rw [hindex] at hle hend
    exact ⟨henvp ▸ hiff,Nat.lt_succ_of_le hle,hend⟩

/-! A request that comes from a link. -/

def linkedLine : Text := str "GET / HTTP/1.0"
def linkedHeader : List Text := [str "Referer: http://h/"]
def linkedConn : Conn := Conn.requested {} {} linkedLine linkedHeader

/-- Without a link nothing is added twice. -/
def plainHeader : List Text := [str "Host: h",str "User-Agent: u",str "X-Forwarded-For: x"]
def plainConn : Conn := Conn.requested {} {} linkedLine plainHeader

theorem environment_namesApart_plain :
    (((exec (completeEnv {}) plainConn).req.envp.map varName).Nodup ↔
      NamesApart {} (Conn.lined {} {} linkedLine).req plainHeader (plainKeys {} plainConn.req)) ∧
    (exec (completeEnv {}) plainConn).req.envp.length < cgiEnvMax+1 ∧
    (exec (completeEnv {}) plainConn).req.cgiEnv
      (exec (completeEnv {}) plainConn).req.envp.length=none :=
  (environment_namesApart {} linkedLine plainHeader {} plainConn (by decide +kernel)
    (by decide +kernel) (by decide +kernel) (by decide) ⟨rfl,rfl,rfl⟩).2 (by decide +kernel)

/-- `HTTP_REFERER` is there twice. -/
theorem environment_refererTwice : value (processLogline {} linkedLine) {}=true ∧
    value (processOptionLines {} linkedHeader) (Conn.lined {} {} linkedLine)=true ∧
    ((headerFields linkedHeader).map Prod.fst).Nodup ∧
    value (completeEnv {}) linkedConn=true ∧
    ¬((exec (completeEnv {}) linkedConn).req.envp.map varName).Nodup := by
  decide +kernel

end Crotalus
