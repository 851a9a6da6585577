import Crotalus.Spec.Range

namespace Crotalus

section Codes

variable {c : Byte}

theorem rangeCode_digit (h : isDigit c=true) : rangeCode c=.digit := by
  rw [rangeCode,if_pos h]

theorem not_digit_of_space (h : isSpace c=true) : ¬isDigit c=true := by
  simp only [isSpace,isDigit,decide_eq_true_eq] at h ⊢
  rintro ⟨h48,h57⟩
  rcases h with rfl|⟨-,h13⟩
  · exact absurd h48 (by decide)
  · have hle : (48 : Byte)≤13 := UInt8.le_trans h48 h13
    exact absurd hle (by decide)

theorem rangeCode_white (h : isSpace c=true) : rangeCode c=.white := by
  rw [rangeCode,if_neg (not_digit_of_space h),if_pos h]

theorem isSep_cases (h : isSep c=true) : rangeCode c=.white ∨ rangeCode c=.comma := by
  rcases Bool.or_eq_true_iff.mp h with hs|hc
  · exact Or.inl (rangeCode_white hs)
  · obtain rfl : c=44 := by simpa using hc
    exact Or.inr rfl

end Codes

/-! What a piece of text does to the scan. -/

section Pieces

variable {d w s t : Text} {v x : Nat} {a : List Range}

/-- The numbers are accumulated modulo 2^64. -/
theorem foldl_u64 (d : Text) (v : Nat) :
    d.foldl (fun v c => u64 (v*10+(c.toNat-48))) (u64 v)=
      u64 (d.foldl (fun v c => v*10+(c.toNat-48)) v) := by
  induction d generalizing v with
  | nil => rfl
  | cons c d ih =>
    have hstep : u64 (u64 v*10+(c.toNat-48))=u64 (v*10+(c.toNat-48)) := by
      unfold u64
      omega
    rw [List.foldl_cons,List.foldl_cons,hstep]
    exact ih _

def scanned (v : Nat) (d : Text) : Nat := d.foldl (fun v c => u64 (v*10+(c.toNat-48))) v

theorem scanned_zero (d : Text) : scanned 0 d=u64 (digitsValue d) := foldl_u64 d 0

theorem scan_seps (h : Seps s) :
    rangeScan (s++t) ⟨.initial,0,0,a⟩=rangeScan t ⟨.initial,0,0,a⟩ := by
  induction s with
  | nil => rfl
  | cons c s ih =>
    have hs : Seps s := fun b hb => h b (List.mem_cons_of_mem _ hb)
    rw [List.cons_append,rangeScan]
    rcases isSep_cases (h c List.mem_cons_self) with hc|hc <;> rw [hc]
    · exact ih hs
    · exact ih hs

theorem scan_startnum (h : Digits d) :
    rangeScan (d++t) ⟨.startnum,v,0,a⟩=rangeScan t ⟨.startnum,scanned v d,0,a⟩ := by
  induction d generalizing v with
  | nil => rfl
  | cons c d ih =>
    have hd : Digits d := fun b hb => h b (List.mem_cons_of_mem _ hb)
    rw [List.cons_append,rangeScan,rangeCode_digit (h c List.mem_cons_self)]
    exact ih hd

theorem scan_gap1 (h : Spaces w) {m : RangeMode} (hm : m=.startnum ∨ m=.gap1) :
    rangeScan (w++45::t) ⟨m,v,0,a⟩=rangeScan t ⟨.gap2,v,0,a⟩ := by
  induction w generalizing m with
  | nil => rcases hm with rfl|rfl <;> rfl
  | cons c w ih =>
    have hw : Spaces w := fun b hb => h b (List.mem_cons_of_mem _ hb)
    rw [List.cons_append,rangeScan,rangeCode_white (h c List.mem_cons_self)]
    rcases hm with rfl|rfl
    · exact ih hw (Or.inr rfl)
    · exact ih hw (Or.inr rfl)

theorem scan_gap2 (h : Spaces w) :
    rangeScan (w++t) ⟨.gap2,v,0,a⟩=rangeScan t ⟨.gap2,v,0,a⟩ := by
  induction w with
  | nil => rfl
  | cons c w ih =>
    have hw : Spaces w := fun b hb => h b (List.mem_cons_of_mem _ hb)
    rw [List.cons_append,rangeScan,rangeCode_white (h c List.mem_cons_self)]
    exact ih hw

theorem scan_stopnum (h : Digits d) :
    rangeScan (d++t) ⟨.stopnum,v,x,a⟩=rangeScan t ⟨.stopnum,v,scanned x d,a⟩ := by
  induction d generalizing x with
  | nil => rfl
  | cons c d ih =>
    have hd : Digits d := fun b hb => h b (List.mem_cons_of_mem _ hb)
    rw [List.cons_append,rangeScan,rangeCode_digit (h c List.mem_cons_self)]
    exact ih hd

/-- From the beginning of a range up to its hyphen. -/
theorem scan_first {q : SpecText} (hd : Digits q.d1) (hw : Spaces q.w1) :
    rangeScan (q.d1++q.w1++45::t) ⟨.initial,0,0,a⟩=rangeScan t ⟨.gap2,q.stored.start,0,a⟩ := by
  rw [List.append_assoc]
  cases hq : q.d1 with
  | nil =>
    have hseps : Seps q.w1 := fun c hc => Bool.or_eq_true_iff.mpr (Or.inl (hw c hc))
    have hstart : q.stored.start=minusOne := if_pos hq
    rw [List.nil_append,scan_seps hseps,hstart]
    rfl
  | cons c d =>
    rw [hq] at hd
    have hd' : Digits d := fun b hb => hd b (List.mem_cons_of_mem _ hb)
    have hstart : q.stored.start=scanned 0 (c::d) := by
      rw [scanned_zero]
      change (if q.d1=[] then minusOne else u64 (digitsValue q.d1))=_
      rw [hq,if_neg (by simp)]
    rw [List.cons_append,rangeScan,rangeCode_digit (hd c List.mem_cons_self),hstart]
    change rangeScan (d++(q.w1++45::t)) ⟨.startnum,_,0,a⟩=_
    rw [scan_startnum hd',scan_gap1 hw (Or.inl rfl)]
    rfl

/-- What the scan submits, or the end of it. -/
def submit (r : Range) (k : List Range → Option RangeScan) (a : List Range) : Option RangeScan :=
  if r.start=r.stop ∧ r.start=2^32-1 then none else k (a++[r])

theorem scan_last (h : Digits d) (hne : d≠[]) :
    rangeScan (d++t) ⟨.gap2,v,0,a⟩=rangeScan t ⟨.stopnum,v,scanned 0 d,a⟩ := by
  cases d with
  | nil => exact absurd rfl hne
  | cons c d =>
    have hd : Digits d := fun b hb => h b (List.mem_cons_of_mem _ hb)
    rw [List.cons_append,rangeScan,rangeCode_digit (h c List.mem_cons_self)]
    exact scan_stopnum hd

/-- A separator in the initial mode does nothing. -/
theorem scan_sep {c : Byte} (h : isSep c=true) :
    rangeScan (c::t) ⟨.initial,0,0,a⟩=rangeScan t ⟨.initial,0,0,a⟩ :=
  scan_seps (s := [c]) fun b hb => by rw [List.mem_singleton.mp hb]; exact h

theorem submit_bind {r : Range} {c : Byte} (h : isSep c=true) :
    (if r.start=r.stop ∧ r.start=2^32-1 then none
      else some (RangeScan.mk .initial 0 0 (a++[r]))).bind (rangeScan t)=
    submit r (fun a => rangeScan (c::t) ⟨.initial,0,0,a⟩) a := by
  unfold submit
  by_cases hr : r.start=r.stop ∧ r.start=2^32-1
  · rw [if_pos hr,if_pos hr]
    rfl
  · rw [if_neg hr,if_neg hr]
    exact (scan_sep h).symm

/-- From the last digit of a range on. -/
theorem scan_stop (h : SepHead t) :
    rangeScan t ⟨.stopnum,v,x,a⟩=
      submit ⟨v,x⟩ (fun a => rangeScan t ⟨.initial,0,0,a⟩) a := by
  cases t with
  | nil => rfl
  | cons c t =>
    have hc := h c rfl
    rw [← submit_bind (r := ⟨v,x⟩) hc,rangeScan]
    rcases isSep_cases hc with hcode|hcode <;> rw [hcode] <;> rfl

/-- From the hyphen of a range without a last number on. -/
theorem scan_open (h : CommaHead t) :
    rangeScan t ⟨.gap2,v,0,a⟩=
      submit ⟨v,minusOne⟩ (fun a => rangeScan t ⟨.initial,0,0,a⟩) a := by
  induction t with
  | nil => rfl
  | cons c t ih =>
    by_cases hc : isSpace c=true
    · have htail : CommaHead t := by
        intro b hb
        refine h b ?_
        rw [List.dropWhile_cons_of_pos hc]
        exact hb
      have hsep : isSep c=true := Bool.or_eq_true_iff.mpr (Or.inl hc)
      rw [rangeScan,rangeCode_white hc]
      change rangeScan t ⟨.gap2,v,0,a⟩=_
      rw [ih htail]
      simp only [scan_sep hsep]
    · have hcomma : c=44 := by
        refine h c ?_
        rw [List.dropWhile_cons_of_neg hc]
        rfl
      subst hcomma
      rw [← submit_bind (r := ⟨v,minusOne⟩) (by decide),rangeScan]
      rfl

end Pieces

/-! The scan of a whole list. -/

theorem SpecText.stored_stop {q : SpecText} (h : q.d2≠[]) : q.stored.stop=scanned 0 q.d2 := by
  rw [scanned_zero]
  exact if_neg h

/-- A list that is recognized is recorded range by range, unless one is refused. -/
theorem scan_list {t : Text} {qs : List SpecText} (h : ScannedList t qs) (a : List Range) :
    rangeScan t ⟨.initial,0,0,a⟩=
      if ∃ q∈qs, q.Refused then none
      else some ⟨.initial,0,0,a++qs.map SpecText.stored⟩ := by
  induction h generalizing a with
  | done hs =>
    have hscan := scan_seps (t := []) (a := a) hs
    rw [List.append_nil] at hscan
    rw [hscan,if_neg (by simp),List.map_nil,List.append_nil]
    rfl
  | @spec s q rest qs hs hq hok hhead hrest ih =>
    have hgo : rangeScan (s++q.text++rest) ⟨.initial,0,0,a⟩=
        submit q.stored (fun a => rangeScan rest ⟨.initial,0,0,a⟩) a := by
      have htext : s++q.text++rest=s++(q.d1++q.w1++45::(q.w2++(q.d2++rest))) := by
        simp [SpecText.text]
      rw [htext,scan_seps hs,scan_first hq.d1 hq.w1,scan_gap2 hq.w2]
      by_cases hd2 : q.d2=[]
      · have hstop : q.stored.stop=minusOne := if_pos hd2
        rw [hd2,List.nil_append,scan_open (hok hd2),← hstop]
      · rw [scan_last hq.d2 hd2,scan_stop hhead,← SpecText.stored_stop hd2]
    rw [hgo]
    change (if q.Refused then none else rangeScan rest ⟨.initial,0,0,a++[q.stored]⟩)=_
    by_cases hr : q.Refused
    · have hany : ∃ p∈q::qs, p.Refused := ⟨q,List.mem_cons_self,hr⟩
      rw [if_pos hr,if_pos hany]
    · have hany : (∃ p∈q::qs, p.Refused) ↔ ∃ p∈qs, p.Refused := by
        simp [hr]
      rw [if_neg hr,ih]
      simp only [hany,List.map_cons,List.append_assoc,List.singleton_append]

/-! What the scan accepts is a list. -/

/-- What the text must still be, mode by mode, for the scan to get through. -/
def RestStopnum (t : Text) : Prop :=
  ∃ d rest qs, Digits d ∧ SepHead rest ∧ ScannedList rest qs ∧ t=d++rest

def RestGap2 (t : Text) : Prop :=
  ∃ w d rest qs, Spaces w ∧ Digits d ∧ SepHead rest ∧ (d=[] → CommaHead rest) ∧
    ScannedList rest qs ∧ t=w++(d++rest)

def RestGap1 (t : Text) : Prop := ∃ w u, Spaces w ∧ RestGap2 u ∧ t=w++45::u

def RestStartnum (t : Text) : Prop := ∃ d u, Digits d ∧ RestGap1 u ∧ t=d++u

def Rest : RangeMode → Text → Prop
  | .initial, t => ∃ qs, ScannedList t qs
  | .startnum, t => RestStartnum t
  | .gap1, t => RestGap1 t
  | .gap2, t => RestGap2 t
  | .stopnum, t => RestStopnum t

theorem Digits.cons {c : Byte} {d : Text} (hc : isDigit c=true) (hd : Digits d) : Digits (c::d) := by
  intro b hb
  rcases List.mem_cons.mp hb with rfl|hb
  · exact hc
  · exact hd b hb

theorem Spaces.cons {c : Byte} {w : Text} (hc : isSpace c=true) (hw : Spaces w) :
    Spaces (c::w) := by
  intro b hb
  rcases List.mem_cons.mp hb with rfl|hb
  · exact hc
  · exact hw b hb

theorem Digits.nil : Digits [] := fun _ h => absurd h List.not_mem_nil

theorem Spaces.nil : Spaces [] := fun _ h => absurd h List.not_mem_nil

theorem Seps.nil : Seps [] := fun _ h => absurd h List.not_mem_nil

theorem SepHead.nil : SepHead [] := by
  intro c h
  cases h

theorem SepHead.cons {c : Byte} {t : Text} (h : isSep c=true) : SepHead (c::t) := by
  intro b hb
  obtain rfl : c=b := Option.some.inj hb
  exact h

theorem CommaHead.nil : CommaHead [] := by
  intro c h
  cases h

theorem CommaHead.comma {t : Text} : CommaHead (44::t) := fun _ h => (Option.some.inj h).symm

theorem Spaces.seps {w : Text} (hw : Spaces w) : Seps w :=
  fun c hc => Bool.or_eq_true_iff.mpr (Or.inl (hw c hc))

theorem Seps.append {s s' : Text} (h : Seps s) (h' : Seps s') : Seps (s++s') := by
  intro c hc
  rcases List.mem_append.mp hc with hc|hc
  · exact h c hc
  · exact h' c hc

/-- More separators in front. -/
theorem SpecList.sep {ok : SpecText → Text → Prop} {s t : Text} {qs : List SpecText} (hs : Seps s)
    (h : SpecList ok t qs) : SpecList ok (s++t) qs := by
  cases h with
  | done ht => exact .done (hs.append ht)
  | @spec s' q rest qs hs' hq hok hhead hrest =>
    rw [List.append_assoc,← List.append_assoc s,← List.append_assoc]
    exact .spec (hs.append hs') hq hok hhead hrest

/-- A range in front of the list behind its hyphen. -/
theorem RestGap2.list {s d1 w1 w2 u : Text} (hs : Seps s) (hd1 : Digits d1) (hw1 : Spaces w1)
    (hw2 : Spaces w2) (h : RestGap2 u) :
    ∃ qs, ScannedList (s++(d1++w1++45::(w2++u))) qs := by
  obtain ⟨w,d,rest,qs,hw,hd,hhead,hopen,hrest,rfl⟩ := h
  have hspaces : Spaces (w2++w) := by
    intro c hc
    rcases List.mem_append.mp hc with hc|hc
    · exact hw2 c hc
    · exact hw c hc
  have hlist := SpecList.spec (q := ⟨d1,w1,w2++w,d⟩) hs ⟨hd1,hw1,hspaces,hd⟩ hopen hhead hrest
  refine ⟨⟨d1,w1,w2++w,d⟩::qs,?_⟩
  have htext : s++(d1++w1++45::(w2++(w++(d++rest))))=
      s++SpecText.text ⟨d1,w1,w2++w,d⟩++rest := by
    simp [SpecText.text]
  rw [htext]
  exact hlist

theorem rangeCode_cases (c : Byte) :
    (isDigit c=true ∧ rangeCode c=.digit) ∨ (isSpace c=true ∧ rangeCode c=.white) ∨
    (c=44 ∧ rangeCode c=.comma) ∨ (c=45 ∧ rangeCode c=.hyphen) ∨ rangeCode c=.other := by
  by_cases hd : isDigit c=true
  · exact Or.inl ⟨hd,rangeCode_digit hd⟩
  by_cases hs : isSpace c=true
  · exact Or.inr (Or.inl ⟨hs,rangeCode_white hs⟩)
  by_cases h44 : c=44
  · subst h44
    exact Or.inr (Or.inr (Or.inl ⟨rfl,rfl⟩))
  by_cases h45 : c=45
  · subst h45
    exact Or.inr (Or.inr (Or.inr (Or.inl ⟨rfl,rfl⟩)))
  · right; right; right; right
    simp [rangeCode,hd,hs,h44,h45]

/-- A step that does not abort goes to the mode of the table. -/
theorem rangeStep_some {code : RangeCode} {c : Byte} {s u : RangeScan}
    (h : rangeStep code c s=some u) :
    (stable s.mode code).2.1≠.ar ∧ u.mode=(stable s.mode code).2.2 := by
  unfold rangeStep at h
  cases hv : (stable s.mode code).2.1 with
  | ar => simp [hv] at h
  | none =>
    simp only [hv] at h
    exact ⟨by simp,(congrArg RangeScan.mode (Option.some.inj h)).symm⟩
  | sr =>
    simp only [hv] at h
    split at h
    · cases h
    · exact ⟨by simp,(congrArg RangeScan.mode (Option.some.inj h)).symm⟩

/-- The scan gets through only what its mode leaves room for. -/
theorem rest_of_scan {t : Text} {s u : RangeScan} (h : rangeScan t s=some u) : Rest s.mode t := by
  induction t generalizing s with
  | nil =>
    have hend := (rangeStep_some h).1
    cases hm : s.mode with
    | initial => exact ⟨[],.done Seps.nil⟩
    | startnum => exact absurd (by rw [hm]; rfl) hend
    | gap1 => exact absurd (by rw [hm]; rfl) hend
    | gap2 =>
      exact ⟨[],[],[],[],Spaces.nil,Digits.nil,SepHead.nil,fun _ => CommaHead.nil,
        .done Seps.nil,rfl⟩
    | stopnum => exact ⟨[],[],[],Digits.nil,SepHead.nil,.done Seps.nil,rfl⟩
  | cons c t ih =>
    rw [rangeScan] at h
    obtain ⟨s',hstep,hscan⟩ := Option.bind_eq_some_iff.mp h
    obtain ⟨hgo,hmode⟩ := rangeStep_some hstep
    have hrest := ih hscan
    rw [hmode] at hrest
    generalize s.mode=m at hgo hrest ⊢
    rcases rangeCode_cases c with ⟨hc,hcode⟩|⟨hc,hcode⟩|⟨rfl,hcode⟩|⟨rfl,hcode⟩|hcode <;>
      rw [hcode] at hgo hrest
    · -- a digit
      have hd : Digits [c] := Digits.nil.cons hc
      cases m with
      | initial =>
        obtain ⟨d,_,hd',⟨w,u,hw,hu,rfl⟩,rfl⟩ := hrest
        obtain ⟨qs,hqs⟩ := hu.list Seps.nil (hd'.cons hc) hw Spaces.nil
        exact ⟨qs,by simpa using hqs⟩
      | startnum =>
        obtain ⟨d,u,hd',hu,rfl⟩ := hrest
        exact ⟨c::d,u,hd'.cons hc,hu,rfl⟩
      | gap1 => exact absurd rfl hgo
      | gap2 =>
        obtain ⟨d,rest,qs,hd',hhead,hqs,rfl⟩ := hrest
        exact ⟨[],c::d,rest,qs,Spaces.nil,hd'.cons hc,hhead,fun h => absurd h (List.cons_ne_nil _ _),hqs,rfl⟩
      | stopnum =>
        obtain ⟨d,rest,qs,hd',hhead,hqs,rfl⟩ := hrest
        exact ⟨c::d,rest,qs,hd'.cons hc,hhead,hqs,rfl⟩
    · -- white space
      have hsep : Seps [c] := (Spaces.nil.cons hc).seps
      cases m with
      | initial =>
        obtain ⟨qs,hqs⟩ := hrest
        exact ⟨qs,hqs.sep hsep⟩
      | startnum =>
        obtain ⟨w,u,hw,hu,rfl⟩ := hrest
        exact ⟨[],_,Digits.nil,⟨c::w,u,hw.cons hc,hu,rfl⟩,rfl⟩
      | gap1 =>
        obtain ⟨w,u,hw,hu,rfl⟩ := hrest
        exact ⟨c::w,u,hw.cons hc,hu,rfl⟩
      | gap2 =>
        obtain ⟨w,d,rest,qs,hw,hd,hhead,hopen,hqs,rfl⟩ := hrest
        exact ⟨c::w,d,rest,qs,hw.cons hc,hd,hhead,hopen,hqs,rfl⟩
      | stopnum =>
        obtain ⟨qs,hqs⟩ := hrest
        exact ⟨[],c::t,qs,Digits.nil,SepHead.cons (hsep c List.mem_cons_self),hqs.sep hsep,rfl⟩
    · -- a comma
      have hsep : Seps [44] := by
        intro b hb
        rw [List.mem_singleton.mp hb]
        rfl
      cases m with
      | initial =>
        obtain ⟨qs,hqs⟩ := hrest
        exact ⟨qs,hqs.sep hsep⟩
      | startnum => exact absurd rfl hgo
      | gap1 => exact absurd rfl hgo
      | gap2 =>
        obtain ⟨qs,hqs⟩ := hrest
        exact ⟨[],[],44::t,qs,Spaces.nil,Digits.nil,SepHead.cons rfl,fun _ => CommaHead.comma,
          hqs.sep hsep,rfl⟩
      | stopnum =>
        obtain ⟨qs,hqs⟩ := hrest
        exact ⟨[],44::t,qs,Digits.nil,SepHead.cons rfl,hqs.sep hsep,rfl⟩
    · -- a hyphen
      cases m with
      | initial =>
        have hlist := RestGap2.list Seps.nil
          Digits.nil Spaces.nil Spaces.nil hrest
        exact hlist
      | startnum => exact ⟨[],_,Digits.nil,⟨[],t,Spaces.nil,hrest,rfl⟩,rfl⟩
      | gap1 => exact ⟨[],t,Spaces.nil,hrest,rfl⟩
      | gap2 => exact absurd rfl hgo
      | stopnum => exact absurd rfl hgo
    · -- anything else aborts the scan
      cases m <;> exact absurd rfl hgo

/-! Lists that the scan does not get through. -/

/-- Up to some point of the text the scan has failed or is in some state. -/
theorem scan_append (x u : Text) (s : RangeScan) :
    rangeScan (x++u) s=none ∨ ∃ s', rangeScan (x++u) s=rangeScan u s' := by
  induction x generalizing s with
  | nil => exact Or.inr ⟨s,rfl⟩
  | cons c x ih =>
    rw [List.cons_append,rangeScan]
    cases rangeStep (rangeCode c) c s with
    | none => exact Or.inl rfl
    | some s' => exact ih s'

theorem crossed_stopnum {d : Text} (hd : Digits d) (y : Text) (v x : Nat) (a : List Range) :
    rangeScan (d++45::y) ⟨.stopnum,v,x,a⟩=none := by
  rw [scan_stopnum hd]
  rfl

theorem crossed_gap2 {w d : Text} (hw : Spaces w) (hd : Digits d) (y : Text) (v x : Nat)
    (a : List Range) : rangeScan (w++(d++45::y)) ⟨.gap2,v,x,a⟩=none := by
  induction w with
  | nil =>
    cases d with
    | nil => rfl
    | cons c d =>
      have hd' : Digits d := fun b hb => hd b (List.mem_cons_of_mem _ hb)
      rw [List.nil_append,List.cons_append,rangeScan,rangeCode_digit (hd c List.mem_cons_self)]
      exact crossed_stopnum hd' y v _ a
  | cons c w ih =>
    have hw' : Spaces w := fun b hb => hw b (List.mem_cons_of_mem _ hb)
    rw [List.cons_append,rangeScan,rangeCode_white (hw c List.mem_cons_self)]
    exact ih hw'

theorem scan_crossed {t : Text} (h : Crossed t) (s : RangeScan) : rangeScan t s=none := by
  obtain ⟨x,w,d,y,hw,hd,rfl⟩ := h
  rcases scan_append x (45::(w++d++45::y)) s with hnone|⟨⟨m,v,z,a⟩,heq⟩
  · exact hnone
  rw [heq,List.append_assoc]
  -- the first hyphen leads to the second gap, or nowhere
  cases m with
  | initial => exact crossed_gap2 hw hd y _ _ _
  | startnum => exact crossed_gap2 hw hd y _ _ _
  | gap1 => exact crossed_gap2 hw hd y _ _ _
  | gap2 => rfl
  | stopnum => rfl

theorem Crossed.prepend {t : Text} (x : Text) (h : Crossed t) : Crossed (x++t) := by
  obtain ⟨x',w,d,y,hw,hd,rfl⟩ := h
  exact ⟨x++x',w,d,y,hw,hd,by simp⟩

/-- White space behind a hyphen does not matter. -/
theorem Crossed.space {w t : Text} (hw : Spaces w) (h : Crossed (45::t)) : Crossed (45::(w++t)) := by
  obtain ⟨x,w',d,y,hw',hd,heq⟩ := h
  cases x with
  | nil =>
    obtain rfl : t=w'++d++45::y := by simpa using heq
    refine ⟨[],w++w',d,y,?_,hd,by simp⟩
    intro c hc
    rcases List.mem_append.mp hc with hc|hc
    · exact hw c hc
    · exact hw' c hc
  | cons c x =>
    obtain ⟨-,rfl⟩ : 45=c ∧ t=x++45::(w'++d++45::y) := by simpa using heq
    exact ⟨45::(w++x),w',d,y,hw',hd,by simp⟩

/-- White space in front of separators, then nothing or a comma. -/
theorem seps_split {s : Text} (hs : Seps s) :
    ∃ w s', Spaces w ∧ Seps s' ∧ s=w++s' ∧ (s'=[] ∨ ∃ u, s'=44::u) := by
  induction s with
  | nil => exact ⟨[],[],Spaces.nil,Seps.nil,rfl,Or.inl rfl⟩
  | cons c s ih =>
    by_cases hc : isSpace c=true
    · obtain ⟨w,s',hw,hs',rfl,hend⟩ := ih fun b hb => hs b (List.mem_cons_of_mem _ hb)
      exact ⟨c::w,s',hw.cons hc,hs',rfl,hend⟩
    · have hcomma : c=44 := by
        rcases Bool.or_eq_true_iff.mp (hs c List.mem_cons_self) with h|h
        · exact absurd h hc
        · simpa using h
      subst hcomma
      exact ⟨[],44::s,Spaces.nil,hs,rfl,Or.inr ⟨s,rfl⟩⟩

/-- A list of the protocol in which no two hyphens are crossed is one the scan gets through,
from its beginning and from behind a hyphen. -/
theorem scanned_of_rangeList {t : Text} {qs : List SpecText} (h : RangeList t qs) :
    (¬Crossed t → ∃ qs', ScannedList t qs') ∧ (SepHead t → ¬Crossed (45::t) → RestGap2 t) := by
  induction h with
  | @done s hs =>
    refine ⟨fun _ => ⟨[],.done hs⟩,fun _ _ => ?_⟩
    obtain ⟨w,s',hw,hs',rfl,hend⟩ := seps_split hs
    refine ⟨w,[],s',[],hw,Digits.nil,?_,fun _ => ?_,.done hs',rfl⟩
    · rcases hend with rfl|⟨u,rfl⟩
      · exact SepHead.nil
      · exact SepHead.cons rfl
    · rcases hend with rfl|⟨u,rfl⟩
      · exact CommaHead.nil
      · exact CommaHead.comma
  | @spec s q rest qs hs hq hnum hhead hrest ih =>
    obtain ⟨ihList,ihGap⟩ := ih
    -- whatever stands before the hyphen
    have hkey : ¬Crossed (45::(q.w2++(q.d2++rest))) → ∀ s d1 w1, Seps s → Digits d1 → Spaces w1 →
        ∃ qs', ScannedList (s++(d1++w1++45::(q.w2++(q.d2++rest)))) qs' := by
      intro hcross s d1 w1 hs hd1 hw1
      by_cases hd2 : q.d2=[]
      · rw [hd2,List.nil_append] at hcross ⊢
        have hgap := ihGap hhead fun hc => hcross (hc.space hq.w2)
        exact hgap.list hs hd1 hw1 hq.w2
      · have hrest' : ¬Crossed rest := by
          intro hc
          have hpre := hc.prepend (45::(q.w2++q.d2))
          exact hcross (by simpa using hpre)
        obtain ⟨qs',hqs'⟩ := ihList hrest'
        have hgap : RestGap2 (q.d2++rest) :=
          ⟨[],q.d2,rest,qs',Spaces.nil,hq.d2,hhead,fun h => absurd h hd2,hqs',rfl⟩
        exact hgap.list hs hd1 hw1 hq.w2
    have htext : s++q.text++rest=s++(q.d1++q.w1++45::(q.w2++(q.d2++rest))) := by
      simp [SpecText.text]
    rw [htext]
    refine ⟨fun hcross => ?_,fun hhead' hcross => ?_⟩
    · refine hkey (fun hc => hcross ?_) s q.d1 q.w1 hs hq.d1 hq.w1
      have hpre := hc.prepend (s++(q.d1++q.w1))
      simpa using hpre
    · have hcross' : ¬Crossed (45::(q.w2++(q.d2++rest))) := by
        intro hc
        have hpre := hc.prepend (45::(s++(q.d1++q.w1)))
        exact hcross (by simpa using hpre)
      obtain ⟨w,s',hw,hs',rfl,hend⟩ := seps_split hs
      rcases hend with rfl|⟨u,rfl⟩
      · -- no comma: the digits before the next hyphen end the open range
        have hapart : q.w1≠[] := by
          intro hw1
          exact hcross ⟨[],w,q.d1,q.w2++(q.d2++rest),hw,hq.d1,by simp [hw1]⟩
        have hnumber : q.d1≠[] := by
          intro hd1
          refine hcross ⟨[],w++q.w1,[],q.w2++(q.d2++rest),?_,Digits.nil,by simp [hd1]⟩
          intro c hc
          rcases List.mem_append.mp hc with hc|hc
          · exact hw c hc
          · exact hq.w1 c hc
        obtain ⟨qs',hqs'⟩ := hkey hcross' q.w1 [] [] hq.w1.seps Digits.nil Spaces.nil
        refine ⟨w,q.d1,q.w1++45::(q.w2++(q.d2++rest)),qs',hw,hq.d1,?_,
          fun h => absurd h hnumber,by simpa using hqs',by simp⟩
        cases hw1 : q.w1 with
        | nil => exact absurd hw1 hapart
        | cons c w1 =>
          refine SepHead.cons (hq.w1.seps c ?_)
          rw [hw1]
          exact List.mem_cons_self
      · obtain ⟨qs',hqs'⟩ := hkey hcross' (44::u) q.d1 q.w1 hs' hq.d1 hq.w1
        exact ⟨w,[],_,qs',hw,Digits.nil,SepHead.cons rfl,fun _ => CommaHead.comma,hqs',by simp⟩

/-! The numbers of a list are those of its text. -/

theorem SpecList.mem {ok : SpecText → Text → Prop} {t : Text} {qs : List SpecText}
    (h : SpecList ok t qs) {q : SpecText} (hq : q∈qs) : q.Clean ∧ ∃ x y, t=x++q.text++y := by
  induction h with
  | done _ => exact absurd hq List.not_mem_nil
  | @spec s p rest ps hs hp hok hhead hrest ih =>
    rcases List.mem_cons.mp hq with rfl|hq
    · exact ⟨hp,s,rest,rfl⟩
    · obtain ⟨hclean,x,y,rfl⟩ := ih hq
      exact ⟨hclean,s++p.text++x,y,by simp⟩

theorem SpecList.numbered {t : Text} {qs : List SpecText} (h : RangeList t qs) {q : SpecText}
    (hq : q∈qs) : q.Numbered := by
  induction h with
  | done _ => exact absurd hq List.not_mem_nil
  | spec _ _ hok _ _ ih =>
    rcases List.mem_cons.mp hq with rfl|hq
    · exact hok
    · exact ih hq

/-- What the scan recognizes is a list of the protocol when its ranges have numbers. -/
theorem rangeList_of_scannedList {t : Text} {qs : List SpecText} (h : ScannedList t qs)
    (hnum : ∀ q∈qs, q.Numbered) : RangeList t qs := by
  induction h with
  | done hs => exact .done hs
  | spec hs hq hok hhead hrest ih =>
    exact .spec hs hq (hnum _ List.mem_cons_self) hhead
      (ih fun q hq => hnum q (List.mem_cons_of_mem _ hq))

theorem NumbersFit.spec {t : Text} (h : NumbersFit t) {q : SpecText} (hq : q.Clean)
    (ht : ∃ x y, t=x++q.text++y) : digitsValue q.d1 < minusOne ∧ digitsValue q.d2 < minusOne := by
  obtain ⟨x,y,rfl⟩ := ht
  exact ⟨h x q.d1 (q.w1++45::(q.w2++q.d2)++y) (by simp [SpecText.text]) hq.d1,
    h (x++(q.d1++q.w1++45::q.w2)) q.d2 y (by simp [SpecText.text]) hq.d2⟩

theorem u64_of_lt_minusOne {n : Nat} (h : n < minusOne) : u64 n=n := by
  unfold minusOne at h
  unfold u64
  omega

/-- A range with a number is recorded as the protocol's range. -/
theorem SpecText.stored_eq {q : SpecText} (hq : q.Numbered) (h1 : digitsValue q.d1 < minusOne)
    (h2 : digitsValue q.d2 < minusOne) : q.stored=q.spec.toRange := by
  unfold SpecText.stored SpecText.spec
  rw [u64_of_lt_minusOne h1,u64_of_lt_minusOne h2]
  by_cases hd1 : q.d1=[]
  · have hd2 : q.d2≠[] := hq.resolve_left fun h => h hd1
    rw [if_pos hd1,if_neg hd2,if_pos hd1]
    rfl
  · rw [if_neg hd1,if_neg hd1]
    by_cases hd2 : q.d2=[]
    · rw [if_pos hd2,if_pos hd2]
      rfl
    · rw [if_neg hd2,if_neg hd2]
      rfl

/-- It never has the two markers of a bare hyphen. -/
theorem SpecText.toRange_ne {q : SpecText} (h1 : digitsValue q.d1 < minusOne)
    (h2 : digitsValue q.d2 < minusOne) : q.spec.toRange≠⟨minusOne,minusOne⟩ := by
  unfold SpecText.spec
  intro heq
  split at heq
  · exact absurd (congrArg Range.stop heq) (Nat.ne_of_lt h2)
  · split at heq
    · exact absurd (congrArg Range.start heq) (Nat.ne_of_lt h1)
    · exact absurd (congrArg Range.start heq) (Nat.ne_of_lt h1)

/-! `range_parse` itself. -/

/-- The value is a range list of the protocol, with numbers that an `unsigned long` holds
beside the marker. -/
def IsRangeList (value : Text) : Prop :=
  strncaseEq value (str "bytes=")=true ∧ NumbersFit (value.drop 6) ∧
    ∃ qs, RangeList (value.drop 6) qs

/-- `range_parse` accepts exactly the range lists, appends their ranges, and leaves the error
range of any other text. -/
def ParsesRanges (r : Request) (value : Text) : Prop :=
  ((r.rangeParse value).2=true ↔ IsRangeList value) ∧
  ((r.rangeParse value).2=true → ∃ qs, RangeList (value.drop 6) qs ∧ NumbersFit (value.drop 6) ∧
    (r.rangeParse value).1.ranges=r.ranges++qs.map fun q => q.spec.toRange) ∧
  (strncaseEq value (str "bytes=")=true → (r.rangeParse value).2=false →
    (r.rangeParse value).1.ranges=[⟨0,minusOne⟩])

/-- A range list has no crossed hyphens and no range 4294967295-4294967295; and whatever
else the scan recognizes has numbers in all its ranges, none of them too large. -/
def ReadAsWritten (t : Text) : Prop :=
  (NumbersFit t → (∃ qs, RangeList t qs) →
    ¬Crossed t ∧ ∀ qs, ScannedList t qs → ∀ q∈qs, ¬q.Refused) ∧
  (∀ qs, ScannedList t qs → (∀ q∈qs, ¬q.Refused) → NumbersFit t ∧ ∀ q∈qs, q.Numbered)

theorem scan_scannedList {t : Text} {qs : List SpecText} (h : ScannedList t qs)
    (hq : ∀ q∈qs, ¬q.Refused) :
    rangeScan t ⟨.initial,0,0,[]⟩=some ⟨.initial,0,0,qs.map SpecText.stored⟩ := by
  rw [scan_list h,if_neg fun ⟨q,hmem,hr⟩ => hq q hmem hr,List.nil_append]

theorem scannedList_of_scan {t : Text} {u : RangeScan}
    (h : rangeScan t ⟨.initial,0,0,[]⟩=some u) :
    ∃ qs, ScannedList t qs ∧ (∀ q∈qs, ¬q.Refused) ∧ u.added=qs.map SpecText.stored := by
  obtain ⟨qs,hqs⟩ := rest_of_scan h
  have hscan := scan_list hqs []
  rw [h] at hscan
  split at hscan
  · cases hscan
  · next hno =>
    refine ⟨qs,hqs,fun q hq hr => hno ⟨q,hq,hr⟩,?_⟩
    rw [Option.some.inj hscan]
    rfl

theorem rangeParse_ok {r : Request} {value : Text} (hpre : strncaseEq value (str "bytes=")=true)
    {u : RangeScan} (h : rangeScan (value.drop 6) ⟨.initial,0,0,[]⟩=some u) :
    r.rangeParse value=(r.rangeAdd u.added,true) := by
  simp only [Request.rangeParse,hpre,h,Bool.not_true,Bool.false_eq_true,if_false]

theorem rangeParse_error {r : Request} {value : Text} (hpre : strncaseEq value (str "bytes=")=true)
    (h : rangeScan (value.drop 6) ⟨.initial,0,0,[]⟩=none) :
    (r.rangeParse value).2=false ∧ (r.rangeParse value).1.ranges=[⟨0,minusOne⟩] := by
  simp only [Request.rangeParse,hpre,h,Bool.not_true,Bool.false_eq_true,if_false,true_and]
  rfl

/-- The grammar of the header, for every value. -/
theorem rangeParse_grammar (r : Request) (value : Text) :
    ParsesRanges r value ↔
      (strncaseEq value (str "bytes=")=true → ReadAsWritten (value.drop 6)) := by
  by_cases hpre : strncaseEq value (str "bytes=")=true
  swap
  · have hno : r.rangeParse value=(r,false) := by
      simp [Request.rangeParse,hpre]
    refine iff_of_true ⟨?_,?_,fun h => absurd h hpre⟩ fun h => absurd h hpre
    · rw [hno]
      exact ⟨fun h => absurd h Bool.false_ne_true,fun h => absurd h.1 hpre⟩
    · rw [hno]
      exact fun h => absurd h Bool.false_ne_true
  simp only [hpre,forall_const]
  cases hscan : rangeScan (value.drop 6) ⟨.initial,0,0,[]⟩ with
  | none =>
    obtain ⟨hfalse,herr⟩ := rangeParse_error (r := r) hpre hscan
    have hnever : ∀ qs, ScannedList (value.drop 6) qs → ¬∀ q∈qs, ¬q.Refused := by
      intro qs hqs hno
      rw [scan_scannedList hqs hno] at hscan
      cases hscan
    constructor
    · intro hparse
      have hlist : ¬IsRangeList value := fun h => by
        rw [hparse.1.mpr h] at hfalse
        cases hfalse
      exact ⟨fun hfit hqs => absurd ⟨hpre,hfit,hqs⟩ hlist,
        fun qs hqs hno => absurd hno (hnever qs hqs)⟩
    · rintro ⟨hlist,-⟩
      have hnot : ¬IsRangeList value := by
        rintro ⟨-,hfit,qs,hqs⟩
        obtain ⟨hcross,hno⟩ := hlist hfit ⟨qs,hqs⟩
        obtain ⟨qs',hqs'⟩ := (scanned_of_rangeList hqs).1 hcross
        exact hnever qs' hqs' (hno qs' hqs')
      refine ⟨?_,?_,fun _ _ => herr⟩
      · rw [hfalse]
        exact iff_of_false Bool.false_ne_true hnot
      · rw [hfalse]
        exact fun h => absurd h Bool.false_ne_true
  | some u =>
    have hok := rangeParse_ok (r := r) hpre hscan
    obtain ⟨qs,hqs,hno,hadded⟩ := scannedList_of_scan hscan
    have hsame : ∀ qs', ScannedList (value.drop 6) qs' → (∀ q∈qs', ¬q.Refused) →
        u.added=qs'.map SpecText.stored := by
      intro qs' hqs' hno'
      rw [scan_scannedList hqs' hno'] at hscan
      rw [← Option.some.inj hscan]
    constructor
    · rintro ⟨-,happ,-⟩
      rw [hok] at happ
      obtain ⟨ps,hps,hfit,hranges⟩ := happ rfl
      have hall : u.added=ps.map fun q => q.spec.toRange := List.append_cancel_left hranges
      refine ⟨fun _ _ => ⟨fun hc => ?_,fun qs' hqs' q hq hr => ?_⟩,fun qs' hqs' hno' =>
        ⟨hfit,fun q hq => ?_⟩⟩
      · rw [scan_crossed hc] at hscan
        cases hscan
      · rw [scan_list hqs',if_pos ⟨q,hq,hr⟩] at hscan
        cases hscan
      · by_contra hbare
        have hstored : q.stored=⟨minusOne,minusOne⟩ := by
          obtain ⟨hd1,hd2⟩ : q.d1=[] ∧ q.d2=[] := by simpa [SpecText.Numbered] using hbare
          simp [SpecText.stored,hd1,hd2]
        have hmem : q.stored∈u.added := by
          rw [hsame qs' hqs' hno']
          exact List.mem_map_of_mem hq
        rw [hall] at hmem
        obtain ⟨p,hp,heq⟩ := List.mem_map.mp hmem
        obtain ⟨hclean,hin⟩ := hps.mem hp
        obtain ⟨h1,h2⟩ := hfit.spec hclean hin
        exact SpecText.toRange_ne h1 h2 (heq.trans hstored)
    · rintro ⟨-,hgood⟩
      obtain ⟨hfit,hnum⟩ := hgood qs hqs hno
      have hlist := rangeList_of_scannedList hqs hnum
      have hstored : qs.map SpecText.stored=qs.map fun q => q.spec.toRange := by
        refine List.map_congr_left fun q hq => ?_
        obtain ⟨hclean,hin⟩ := hqs.mem hq
        obtain ⟨h1,h2⟩ := hfit.spec hclean hin
        exact SpecText.stored_eq (hnum q hq) h1 h2
      rw [ParsesRanges,hok]
      refine ⟨iff_of_true rfl ⟨hpre,hfit,qs,hlist⟩,fun _ => ⟨qs,hlist,hfit,?_⟩,
        fun _ h => Bool.noConfusion h⟩
      rw [← hstored,← hadded]
      rfl

/-- A hyphen alone. -/
theorem rangeParse_bareHyphen : ¬ParsesRanges {} (str "bytes=-") := by
  rintro ⟨-,happ,-⟩
  obtain ⟨qs,hqs,hfit,hranges⟩ := happ (by decide +kernel)
  have hrec : (({} : Request).rangeParse (str "bytes=-")).1.ranges=[⟨minusOne,minusOne⟩] := by
    decide +kernel
  rw [hrec] at hranges
  have hmem : (⟨minusOne,minusOne⟩ : Range)∈qs.map fun q => q.spec.toRange := by
    have hall : qs.map (fun q => q.spec.toRange)=[⟨minusOne,minusOne⟩] := hranges.symm
    rw [hall]
    exact List.mem_cons_self
  obtain ⟨q,hq,heq⟩ := List.mem_map.mp hmem
  obtain ⟨hclean,hin⟩ := hqs.mem hq
  obtain ⟨h1,h2⟩ := hfit.spec hclean hin
  exact SpecText.toRange_ne h1 h2 heq

end Crotalus
