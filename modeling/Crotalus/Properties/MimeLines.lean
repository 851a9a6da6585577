import Crotalus.Server.MimeTypes
import Crotalus.Spec.Scan

namespace Crotalus

open ByteMem Lines

/-! The lines of the `mime.types` file. -/

/-- The text of a line, in front of its end. -/
def lineText (line : Text) : Text := (line.takeWhile (· ≠ 0)).takeWhile (· ≠ 10)

def mimeWords (text : Text) : List Text := Lines.words isTabOrBlank text

/-- The first word is the type, and the others are its extensions. -/
def extensionPairs : List Text → List (Text × Text)
  | [] => []
  | type::extensions => extensions.map fun extension => (extension,type)

/-- The calls that a line asks for. -/
def mimePairs (line : Text) : List (Text × Text) :=
  if (lineText line).head?=some 35 then [] else extensionPairs (mimeWords (lineText line))

/-! The loop over the words, on the bytes of the buffer from its position on. -/

def isStop (b : Byte) : Bool := isTabOrBlank b || b=0

def isStart (b : Byte) : Bool := b=0 || isAlnum b

/-- The words that the loop finds in the bytes before it; `none` when it leaves the buffer. -/
inductive Yields : Text → Option (List Text) → Prop
  | done (c : Byte) (rest : Text) : isStop c=true → Yields (c::rest) (some [])
  | word (w : Text) (c : Byte) (a : Text) (d : Byte) (rest : Text) (r : Option (List Text)) :
      w≠[] → (∀ x∈w,isStop x=false) → isStop c=true → (∀ x∈a,isStart x=false) →
      isStart d=true → Yields (d::rest) r → Yields (w++c::(a++d::rest)) (r.map (w::·))
  | lost (w : Text) (c : Byte) (rest : Text) : w≠[] → (∀ x∈w,isStop x=false) → isStop c=true →
      (∀ x∈rest,isStart x=false) → Yields (w++c::rest) none
  | unended (w : Text) : (∀ x∈w,isStop x=false) → Yields w none

/-- What is behind a byte that the loop overwrites. -/
theorem slice_cut (m : Nat → Byte) (i n : Nat) :
    slice (store m i [0]) (i+1) n=slice m (i+1) n :=
  slice_congr fun j h _ => store_above m i j [0] h

theorem extensionLoop_yields (k : Nat) (m : Nat → Byte) (p : Nat) (hp : p ≤ mimeBufSize)
    (hk : mimeBufSize-p < k) : ∃ r,Yields (slice m p (mimeBufSize-p)) r ∧
      (extensionLoop k m p).map Prod.snd=r := by
  induction k generalizing m p with
  | zero => exact absurd hk (Nat.not_lt_zero _)
  | succ k ih =>
    rcases first_split isStop (slice m p (mimeBufSize-p)) with hnone|⟨w,c,b,hsplit,hw,hc⟩
    · have hend : wordEnd m p=none := scanFor_none hnone
      refine ⟨none,.unended _ hnone,?_⟩
      rw [extensionLoop,hend]
      rfl
    · have hend : wordEnd m p=some (p+w.length) := scanFor_some hsplit hw hc
      obtain ⟨hword,hbehind,hlen⟩ := slice_behind hsplit
      rw [hsplit]
      by_cases hnil : w=[]
      · subst hnil
        refine ⟨some [],.done c b hc,?_⟩
        rw [extensionLoop,hend]
        simp
      · have hpos : 0 < w.length := List.length_pos_of_ne_nil hnil
        have hne : ¬p+w.length=p := by omega
        -- the bytes behind the end of the word
        have hb : slice (store m (p+w.length) [0]) (p+w.length+1) (mimeBufSize-(p+w.length+1))=b := by
          rw [slice_cut]
          have hcons : slice m (p+w.length) (mimeBufSize-p-w.length)=[c]++b := hbehind
          have hrest := (slice_behind hcons).2.1
          rw [List.length_singleton] at hrest
          rw [← hrest]
          congr 1
          omega
        rcases first_split isStart b with hlost|⟨a,d,rest,rfl,ha,hd⟩
        · have hnext : nextAlnum (store m (p+w.length) [0]) (p+w.length+1)=none :=
            scanFor_none (by rw [hb]; exact hlost)
          refine ⟨none,.lost w c b hnil hw hc hlost,?_⟩
          rw [extensionLoop,hend]
          simp only [Option.bind_eq_bind,Option.bind_some,if_neg hne,hnext]
          rfl
        · have hnext : nextAlnum (store m (p+w.length) [0]) (p+w.length+1)=
              some (p+w.length+1+a.length) := scanFor_some hb ha hd
          obtain ⟨-,hrest,hlen'⟩ := slice_behind hb
          rw [List.length_cons,List.length_append,List.length_cons] at hlen
          obtain ⟨r,hyields,hrun⟩ := ih (store m (p+w.length) [0]) (p+w.length+1+a.length)
            (by omega) (by omega)
          rw [Nat.sub_sub] at hrest
          rw [hrest] at hyields
          refine ⟨r.map (w::·),.word w c a d rest r hnil hw hc ha hd hyields,?_⟩
          rw [extensionLoop,hend,← hrun]
          simp only [Option.bind_eq_bind,Option.bind_some,if_neg hne,hnext]
          cases extensionLoop k (store m (p+w.length) [0]) (p+w.length+1+a.length) with
          | none => rfl
          | some r =>
            rw [Nat.add_sub_cancel_left,hword]
            rfl

/-! The words of a text, and the words that the loop finds. -/

def startsAlnum (w : Text) : Bool := w.head?.any isAlnum

/-- The text ends in a word. -/
def endsInWord (text : Text) : Bool := text.getLast?.any fun b => !isTabOrBlank b

/-- No letter or digit comes in front of the first null byte. -/
def Quiet (behind : Text) : Prop := ∃ a b,behind=a++0::b ∧ ∀ x∈a,isStart x=false

/-- The words that the loop goes on to start with a letter or digit. -/
theorem Yields.alnum {bytes : Text} {r : Option (List Text)} (h : Yields bytes r)
    (hstart : ∀ b∈bytes.head?,isStart b=true) {es : List Text} (hes : r=some es) :
    ∀ e∈es,startsAlnum e=true := by
  induction h generalizing es with
  | done c rest hc =>
    cases hes
    exact fun e he => absurd he List.not_mem_nil
  | word w c a d rest r hne hw hc ha hd hrest ih =>
    obtain ⟨es',rfl,rfl⟩ := Option.map_eq_some_iff.mp hes
    rw [List.forall_mem_cons]
    refine ⟨?_,ih (fun b hb => Option.some.inj hb ▸ hd) rfl⟩
    cases w with
    | nil => exact absurd rfl hne
    | cons b w =>
      have hb := hstart b rfl
      have hstop := hw b List.mem_cons_self
      rw [isStop,Bool.or_eq_false_iff] at hstop
      rw [isStart,hstop.2,Bool.false_or] at hb
      exact hb
  | lost w c rest hne hw hc hrest => cases hes
  | unended w hw => cases hes

theorem isStop_sep {b : Byte} (hb : b≠0) : isStop b=isTabOrBlank b := by
  rw [isStop,decide_eq_false hb,Bool.or_false]

theorem isAlnum_sep {b : Byte} (h : isAlnum b=true) : isTabOrBlank b=false := by
  have hall : ∀ n < 256,isAlnum (UInt8.ofNat n)=true → isTabOrBlank (UInt8.ofNat n)=false := by
    decide +kernel
  have hb := hall b.toNat b.toNat_lt
  rw [UInt8.ofNat_toNat] at hb
  exact hb h

/-- The words behind bytes that the scan passes over, when each starts with a letter or digit. -/
theorem mimeWords_passed {a u : Text} (ha : ∀ x∈a,isStart x=false)
    (h : ∀ w∈mimeWords (a++u),startsAlnum w=true) : mimeWords (a++u)=mimeWords u := by
  induction a with
  | nil => rfl
  | cons x a ih =>
    rw [List.forall_mem_cons] at ha
    cases hx : isTabOrBlank x with
    | true =>
      rw [mimeWords,List.cons_append,Lines.words_sep hx] at h ⊢
      exact ih ha.2 h
    | false =>
      -- a word that starts with something else
      exfalso
      have hmem : ∃ w,(x::w)∈mimeWords (x::(a++u)) := by
        obtain ⟨w,-,⟨-,hwords⟩|⟨c,v,-,-,hwords⟩⟩ := first_word hx (a++u)
        · exact ⟨w,by rw [mimeWords,hwords]; exact List.mem_cons_self⟩
        · exact ⟨w,by rw [mimeWords,hwords]; exact List.mem_cons_self⟩
      obtain ⟨w,hw⟩ := hmem
      have halnum := h (x::w) hw
      have hstart := ha.1
      rw [isStart,Bool.or_eq_false_iff] at hstart
      exact absurd halnum (by rw [startsAlnum,List.head?_cons,Option.any_some,hstart.2]; decide)

theorem endsInWord_append (v : Text) {u : Text} (hu : u≠[]) :
    endsInWord (v++u)=endsInWord u := by
  rw [endsInWord,endsInWord,List.getLast?_append_of_ne_nil _ hu]

theorem endsInWord_word {w : Text} (hw : ∀ b∈w,isTabOrBlank b=false) (hne : w≠[]) :
    endsInWord w=true := by
  rw [endsInWord,List.getLast?_eq_some_getLast hne,Option.any_some,hw _ (List.getLast_mem hne)]
  rfl

/-- A text behind what ends a word ends as the whole. -/
theorem endsInWord_behind {v u : Text} {c : Byte} (hc : isTabOrBlank c=true) :
    endsInWord (v++c::u)=endsInWord u := by
  rw [endsInWord_append v (List.cons_ne_nil c u)]
  by_cases hu : u=[]
  · subst hu
    rw [endsInWord,List.getLast?_singleton,Option.any_some,hc]
    rfl
  · exact endsInWord_append [c] hu

theorem endsInWord_noWords {u : Text} (h : mimeWords u=[]) : endsInWord u=false := by
  by_cases hu : u=[]
  · subst hu
    rfl
  · rw [endsInWord,List.getLast?_eq_some_getLast hu,Option.any_some,
      sep_of_words_nil h _ (List.getLast_mem hu)]
    rfl

theorem quiet_iff {a rest : Text} {d : Byte} (ha : ∀ x∈a,isStart x=false) (hd : isStart d=true) :
    Quiet (a++d::rest) ↔ d=0 := by
  constructor
  · rintro ⟨a',b,heq,ha'⟩
    exact (first_unique heq ha ha' hd rfl).2.1
  · rintro rfl
    exact ⟨a,rest,rfl,ha⟩

/-- At a null byte the loop ends, and at a letter or digit it finds a word. -/
theorem yields_start {d : Byte} {rest : Text} {r : Option (List Text)} (h : Yields (d::rest) r)
    (hd : isStart d=true) : r=some [] ↔ d=0 := by
  generalize hbytes : d::rest=bytes at h
  cases h with
  | done c rest' hc =>
    rw [List.cons.injEq] at hbytes
    refine ⟨fun _ => ?_,fun _ => rfl⟩
    by_contra hne
    rw [← hbytes.1,isStop_sep hne] at hc
    rw [isStart,decide_eq_false hne,Bool.false_or] at hd
    rw [isAlnum_sep hd] at hc
    cases hc
  | word w c a d' rest' r hne hw hc ha hd' hrest =>
    refine ⟨fun heq => ?_,fun hzero => ?_⟩
    · obtain ⟨es,-,hes⟩ := Option.map_eq_some_iff.mp heq
      cases hes
    · cases w with
      | nil => exact absurd rfl hne
      | cons b w =>
        rw [List.cons_append,List.cons.injEq] at hbytes
        have hb := hw b List.mem_cons_self
        rw [← hbytes.1,hzero] at hb
        cases hb
  | lost w c rest' hne hw hc hrest =>
    refine ⟨fun heq => (by cases heq),fun hzero => ?_⟩
    cases w with
    | nil => exact absurd rfl hne
    | cons b w =>
      rw [List.cons_append,List.cons.injEq] at hbytes
      have hb := hw b List.mem_cons_self
      rw [← hbytes.1,hzero] at hb
      cases hb
  | unended w hw =>
    refine ⟨fun heq => (by cases heq),fun hzero => ?_⟩
    have hb := hw d (hbytes ▸ List.mem_cons_self)
    rw [hzero] at hb
    cases hb

/-- The first word of a text in front of a null byte is the first word that the loop finds. -/
theorem first_mimeWord {u T w rest : Text} {c : Byte} (hbytes : u++0::T=w++c::rest)
    (hzero : ∀ x∈u,x≠0) (hhead : ∀ b∈u.head?,isTabOrBlank b=false) (hne : w≠[])
    (hw : ∀ x∈w,isStop x=false) (hc : isStop c=true) :
    (u=w ∧ c=0 ∧ rest=T ∧ mimeWords u=[w]) ∨
      ∃ u₁,isTabOrBlank c=true ∧ u=w++c::u₁ ∧ rest=u₁++0::T ∧ mimeWords u=w::mimeWords u₁ := by
  have hword : ∀ v : Text,(∀ b∈v,isTabOrBlank b=false) → (∀ x∈v,x≠0) →
      ∀ x∈v,isStop x=false := by
    intro v hsep hz x hx
    rw [isStop_sep (hz x hx)]
    exact hsep x hx
  cases u with
  | nil =>
    cases w with
    | nil => exact absurd rfl hne
    | cons b w =>
      rw [List.nil_append,List.cons_append,List.cons.injEq] at hbytes
      have hb := hw b List.mem_cons_self
      rw [← hbytes.1] at hb
      cases hb
  | cons b u =>
    obtain ⟨v,hv,⟨rfl,hwords⟩|⟨c',u₁,hc',rfl,hwords⟩⟩ := first_word (hhead b rfl) u
    · obtain ⟨rfl,rfl,rfl⟩ := first_unique hbytes (hword _ hv hzero) hw rfl hc
      exact .inl ⟨rfl,rfl,rfl,hwords⟩
    · have hz : ∀ x∈b::v,x≠0 := fun x hx =>
        hzero x (by rw [← List.cons_append]; exact List.mem_append_left _ hx)
      have hstop : isStop c'=true := by rw [isStop,hc']; rfl
      rw [← List.cons_append,List.append_assoc] at hbytes
      obtain ⟨rfl,rfl,rfl⟩ := first_unique hbytes (hword _ hv hz) hw hstop hc
      exact .inr ⟨u₁,hc',rfl,rfl,hwords⟩

/-- The loop finds the words of the text when they start with letters or digits, and when nothing
behind a word at its end looks like another. -/
theorem yields_words {u T : Text} {r : Option (List Text)} (h : Yields (u++0::T) r)
    (hzero : ∀ x∈u,x≠0) (hhead : ∀ b∈u.head?,isTabOrBlank b=false) :
    r=some (mimeWords u) ↔
      (∀ w∈(mimeWords u).tail,startsAlnum w=true) ∧ (endsInWord u=true → Quiet T) := by
  generalize hbytes : u++0::T=bytes at h
  induction h generalizing u with
  | done c rest hc =>
    cases u with
    | nil =>
      exact ⟨fun _ => ⟨fun w hw => absurd hw List.not_mem_nil,fun h => (by cases h)⟩,
        fun _ => rfl⟩
    | cons b u =>
      rw [List.cons_append,List.cons.injEq] at hbytes
      rw [← hbytes.1,isStop_sep (hzero b List.mem_cons_self),hhead b rfl] at hc
      cases hc
  | word w c a d rest r hne hw hc ha hd hrest ih =>
    obtain ⟨rfl,rfl,rfl,hwords⟩|⟨u₁,hsep,rfl,htext,hwords⟩ :=
      first_mimeWord hbytes hzero hhead hne hw hc
    · -- one word, and what the loop goes on to is behind the text
      have hend : endsInWord u=true := by
        refine endsInWord_word (fun b hb => ?_) hne
        rw [← isStop_sep (hzero b hb)]
        exact hw b hb
      rw [hwords,quiet_iff ha hd,hend,← yields_start hrest hd,Option.map_eq_some_iff]
      constructor
      · rintro ⟨es,rfl,hes⟩
        rw [List.cons.injEq] at hes
        exact ⟨fun w hw => absurd hw List.not_mem_nil,fun _ => by rw [hes.2]⟩
      · rintro ⟨-,hr⟩
        exact ⟨[],hr rfl,rfl⟩
    · have hcons : r.map (w::·)=some (w::mimeWords u₁) ↔ r=some (mimeWords u₁) := by
        rw [Option.map_eq_some_iff]
        constructor
        · rintro ⟨es,rfl,hes⟩
          rw [List.cons.injEq] at hes
          rw [hes.2]
        · rintro rfl
          exact ⟨_,rfl,rfl⟩
      have hz : ∀ x∈u₁,x≠0 := fun x hx =>
        hzero x (List.mem_append_right w (List.mem_cons_of_mem c hx))
      rw [hwords,endsInWord_behind hsep,hcons,List.tail_cons]
      rcases first_split isStart u₁ with hnone|⟨a',d',u₂,rfl,ha',hd'⟩
      · -- nothing more for the loop in the text
        obtain ⟨rfl,rfl,-⟩ := first_unique htext ha hnone hd rfl
        rw [(yields_start hrest hd).mpr rfl,Option.some.injEq]
        constructor
        · intro heq
          rw [endsInWord_noWords heq.symm,← heq]
          exact ⟨fun w hw => absurd hw List.not_mem_nil,fun h => (by cases h)⟩
        · rintro ⟨halnum,-⟩
          rw [← List.append_nil a] at halnum ⊢
          exact (mimeWords_passed ha halnum).symm
      · rw [List.append_assoc] at htext
        obtain ⟨rfl,rfl,rfl⟩ := first_unique htext ha ha' hd hd'
        have hz₂ : ∀ x∈d::u₂,x≠0 := fun x hx => hz x (List.mem_append_right a hx)
        have hblank : isTabOrBlank d=false := by
          rw [isStart,decide_eq_false (hz₂ d List.mem_cons_self),Bool.false_or] at hd
          exact isAlnum_sep hd
        have hih := ih hz₂ (fun b hb => Option.some.inj hb ▸ hblank) rfl
        rw [endsInWord_append a (List.cons_ne_nil d u₂)]
        constructor
        · intro hr
          have halnum := hrest.alnum (fun b hb => Option.some.inj hb ▸ hd) hr
          rw [mimeWords_passed ha halnum] at hr
          exact ⟨halnum,(hih.mp hr).2⟩
        · rintro ⟨halnum,hquiet⟩
          have hpassed := mimeWords_passed ha halnum
          rw [hpassed] at halnum ⊢
          exact hih.mpr ⟨fun w hw => halnum w (List.mem_of_mem_tail hw),hquiet⟩
  | lost w c rest hne hw hc hrest =>
    refine ⟨fun heq => (by cases heq),fun hclean => ?_⟩
    exfalso
    obtain ⟨rfl,rfl,rfl,hwords⟩|⟨u₁,hsep,rfl,rfl,hwords⟩ :=
      first_mimeWord hbytes hzero hhead hne hw hc
    · have hend : endsInWord u=true := by
        refine endsInWord_word (fun b hb => ?_) hne
        rw [← isStop_sep (hzero b hb)]
        exact hw b hb
      obtain ⟨a,b,rfl,-⟩ := hclean.2 hend
      have hnull := hrest 0 (List.mem_append_right a List.mem_cons_self)
      cases hnull
    · have hnull := hrest 0 (List.mem_append_right u₁ List.mem_cons_self)
      cases hnull
  | unended w hw =>
    have hnull := hw 0 (hbytes ▸ List.mem_append_right u List.mem_cons_self)
    cases hnull

/-- The loop finds nothing where a word ends. -/
theorem yields_stop {c : Byte} {rest : Text} {r : Option (List Text)} (h : Yields (c::rest) r)
    (hc : isStop c=true) : r=some [] := by
  have hword : ∀ {w v : Text},c::rest=w++v → w≠[] → ¬∀ x∈w,isStop x=false := by
    intro w v heq hne hw
    cases w with
    | nil => exact hne rfl
    | cons b w =>
      rw [List.cons_append,List.cons.injEq] at heq
      have hb := hw b List.mem_cons_self
      rw [← heq.1,hc] at hb
      cases hb
  generalize hbytes : c::rest=bytes at h
  cases h with
  | done c rest hc => rfl
  | word w c a d rest r hne hw hc ha hd hrest => exact absurd hw (hword hbytes hne)
  | lost w c rest hne hw hc hrest => exact absurd hw (hword hbytes hne)
  | unended _ hw =>
    exact absurd hw (hword (hbytes.trans (List.append_nil _).symm)
      (hbytes ▸ List.cons_ne_nil c rest))

/-- The first word is found always. -/
theorem yields_first {u T : Text} {es : List Text} {r : Option (List Text)}
    (h : Yields (u++0::T) r) (hzero : ∀ x∈u,x≠0) (hhead : ∀ b∈u.head?,isTabOrBlank b=false)
    (hr : r=some es) : es.head?=(mimeWords u).head? := by
  generalize hbytes : u++0::T=bytes at h
  cases h with
  | done c rest hc =>
    cases hr
    cases u with
    | nil => rfl
    | cons b u =>
      rw [List.cons_append,List.cons.injEq] at hbytes
      rw [← hbytes.1,isStop_sep (hzero b List.mem_cons_self),hhead b rfl] at hc
      cases hc
  | word w c a d rest r hne hw hc ha hd hrest =>
    obtain ⟨es,-,rfl⟩ := Option.map_eq_some_iff.mp hr
    obtain ⟨-,-,-,hwords⟩|⟨u₁,-,-,-,hwords⟩ := first_mimeWord hbytes hzero hhead hne hw hc
    · rw [hwords]
      rfl
    · rw [hwords]
      rfl
  | lost w c rest hne hw hc hrest => cases hr
  | unended w hw => cases hr

theorem extensionPairs_inj {ws vs : List Text} (hhead : ws.head?=vs.head?)
    (h : extensionPairs ws=extensionPairs vs) : ws=vs := by
  cases ws with
  | nil =>
    cases vs with
    | nil => rfl
    | cons v vs => cases hhead
  | cons w ws =>
    cases vs with
    | nil => cases hhead
    | cons v vs =>
      rw [List.head?_cons,List.head?_cons,Option.some.injEq] at hhead
      subst hhead
      have hmap : Function.Injective fun extension : Text => (extension,w) :=
        fun x y hxy => congrArg Prod.fst hxy
      rw [List.map_injective_iff.mpr hmap h]

/-! One line. -/

/-- The buffer with a line in it. -/
def mimeBuffer (m : Nat → Byte) (line : Text) : Nat → Byte := store m 0 (line++[0])

/-- What the buffer holds behind the end of the text. -/
def behindText (m : Nat → Byte) (line : Text) : Text :=
  slice (mimeBuffer m line) ((lineText line).length+1) (mimeBufSize-((lineText line).length+1))

/-- The line is a comment; or it starts with a blank and has one word at most; or its further
words start with letters or digits and, if it ends in a word, no letter or digit is left behind
it in the buffer before the next null byte. -/
def CleanMime (m : Nat → Byte) (line : Text) : Prop :=
  (lineText line).head?=some 35 ∨
  ((lineText line).head?.any isTabOrBlank=true ∧ (mimeWords (lineText line)).length≤1) ∨
  ((lineText line).head?.any isTabOrBlank=false ∧
    (∀ w∈(mimeWords (lineText line)).tail,startsAlnum w=true) ∧
    (endsInWord (lineText line)=true → Quiet (behindText m line)))

def endsText (b : Byte) : Bool := b=0 || b=10

/-- The text of a line and what ends it. -/
theorem lineText_split (line : Text) : ∃ c rest,line++[0]=lineText line++c::rest ∧
    (∀ x∈lineText line,endsText x=false) ∧ endsText c=true ∧
    strchr 10 (line.takeWhile (· ≠ 0))=if c=10 then some (lineText line).length else none := by
  induction line with
  | nil => exact ⟨0,[],rfl,fun x hx => absurd hx List.not_mem_nil,rfl,rfl⟩
  | cons b line ih =>
    obtain ⟨c,rest,hsplit,htext,hc,hchr⟩ := ih
    by_cases hzero : b=0
    · subst hzero
      exact ⟨0,line++[0],rfl,fun x hx => absurd hx List.not_mem_nil,rfl,rfl⟩
    · by_cases hnl : b=10
      · subst hnl
        exact ⟨10,line++[0],rfl,fun x hx => absurd hx List.not_mem_nil,rfl,rfl⟩
      · have hcons : lineText (b::line)=b::lineText line := by
          rw [lineText,List.takeWhile_cons_of_pos (by simpa using hzero),
            List.takeWhile_cons_of_pos (by simpa using hnl)]
          rfl
        have hb : endsText b=false := by
          rw [endsText,decide_eq_false hzero,decide_eq_false hnl]
          rfl
        refine ⟨c,rest,?_,?_,hc,?_⟩
        · rw [hcons,List.cons_append,hsplit]
          rfl
        · rw [hcons]
          exact List.forall_mem_cons.mpr ⟨hb,htext⟩
        · rw [List.takeWhile_cons_of_pos (by simpa using hzero),strchr,List.findIdx?_cons,
            decide_eq_false hnl]
          rw [strchr] at hchr
          rw [if_neg Bool.false_ne_true,hchr,hcons]
          split <;> rfl

/-- The loop over all words of the buffer, from the first on. -/
theorem extensionLoop_first (k : Nat) (m : Nat → Byte) :
    ((wordEnd m 0).bind fun len =>
      if len=0 then some (m,[])
      else (nextAlnum (store m len [0]) (len+1)).bind fun p =>
        (extensionLoop k (store m len [0]) p).bind fun r =>
          some (r.1,r.2.map fun extension => (extension,slice m 0 len))).map Prod.snd=
      (extensionLoop (k+1) m 0).map fun r => extensionPairs r.2 := by
  rw [extensionLoop]
  cases wordEnd m 0 with
  | none => rfl
  | some len =>
    simp only [Option.bind_eq_bind,Option.bind_some]
    by_cases hzero : len=0
    · rw [if_pos hzero,if_pos hzero]
      rfl
    · rw [if_neg hzero,if_neg hzero]
      cases nextAlnum (store m len [0]) (len+1) with
      | none => rfl
      | some p =>
        simp only [Option.bind_some]
        cases extensionLoop k (store m len [0]) p with
        | none => rfl
        | some r => rfl

/-- A line in the buffer, and the loop over all of its words. -/
theorem mimeLine_loop {m : Nat → Byte} {line : Text} {b : Byte} {u : Text}
    (htext : lineText line=b::u) (hcomment : b≠35) (hlen : line.length < mimeBufSize) :
    ∃ cut,slice cut 0 mimeBufSize=lineText line++0::behindText m line ∧
      (mimeLine m line).map Prod.snd=
        (extensionLoop (mimeBufSize+1) cut 0).map fun r => extensionPairs r.2 := by
  obtain ⟨c,rest,hsplit,hends,hc,hchr⟩ := lineText_split line
  have hshort : (lineText line).length≤line.length := by
    have hlength := congrArg List.length hsplit
    rw [List.length_append,List.length_singleton,List.length_append,List.length_cons] at hlength
    omega
  have hin : (lineText line).length < (line++[0]).length := by
    rw [List.length_append,List.length_singleton]
    omega
  -- the bytes of the text, and what ends it
  have hline : slice (mimeBuffer m line) 0 (line++[0]).length=line++[0] := slice_store m 0 _
  rw [slice_at _ hin,hsplit] at hline
  obtain ⟨hslice,hrest⟩ := List.append_inj hline (length_slice _ _ _)
  rw [List.cons.injEq] at hrest
  have hb : mimeBuffer m line 0=b := by
    rw [htext,List.length_cons,slice,List.cons.injEq] at hslice
    exact hslice.1
  have hbends : endsText b=false := hends b (htext ▸ List.mem_cons_self)
  have hskip : ¬(mimeBuffer m line 0=0 ∨ mimeBuffer m line 0=35 ∨ mimeBuffer m line 0=10) := by
    rw [hb]
    rw [endsText,Bool.or_eq_false_iff,decide_eq_false_iff_not,decide_eq_false_iff_not] at hbends
    rintro (h|h|h)
    · exact hbends.1 h
    · exact hcomment h
    · exact hbends.2 h
  by_cases hnl : c=10
  · rw [if_pos hnl] at hchr
    refine ⟨store (mimeBuffer m line) (lineText line).length [0],?_,?_⟩
    · rw [slice_at _ (Nat.lt_of_le_of_lt hshort hlen),slice_store_below _ _ _ _ _ (by omega),
        hslice,slice_cut,behindText]
      have hat := store_last (mimeBuffer m line) (lineText line).length [] 0
      rw [List.nil_append,List.length_nil,Nat.add_zero] at hat
      rw [hat]
    · rw [mimeLine]
      dsimp only
      rw [← mimeBuffer,if_neg hskip,hchr]
      exact extensionLoop_first mimeBufSize _
  · rw [if_neg hnl] at hchr
    have hzero : c=0 := by
      rw [endsText,decide_eq_false hnl,Bool.or_false,decide_eq_true_eq] at hc
      exact hc
    refine ⟨mimeBuffer m line,?_,?_⟩
    · rw [slice_at _ (Nat.lt_of_le_of_lt hshort hlen),hslice,hrest.1,hzero,behindText]
    · rw [mimeLine]
      dsimp only
      rw [← mimeBuffer,if_neg hskip,hchr]
      exact extensionLoop_first mimeBufSize _

/-- The first byte in the buffer is that of the line. -/
theorem mimeBuffer_first {m : Nat → Byte} {line rest : Text} {b : Byte} (h : line++[0]=b::rest) :
    mimeBuffer m line 0=b := by
  rw [mimeBuffer,h]
  rfl

/-- An empty line and a comment are passed over. -/
theorem mimeLine_skip {m : Nat → Byte} {line : Text}
    (h : lineText line=[] ∨ (lineText line).head?=some 35) :
    (mimeLine m line).map Prod.snd=some [] := by
  obtain ⟨c,rest,hsplit,-,hc,-⟩ := lineText_split line
  have hfirst : mimeBuffer m line 0=0 ∨ mimeBuffer m line 0=35 ∨ mimeBuffer m line 0=10 := by
    rcases h with hnil|hcomment
    · rw [hnil,List.nil_append] at hsplit
      rw [mimeBuffer_first hsplit]
      rw [endsText,Bool.or_eq_true,decide_eq_true_eq,decide_eq_true_eq] at hc
      exact hc.elim .inl fun h => .inr (.inr h)
    · obtain ⟨u,hu⟩ := List.head?_eq_some_iff.mp hcomment
      rw [hu] at hsplit
      rw [mimeBuffer_first hsplit]
      exact .inr (.inl rfl)
  rw [mimeLine]
  dsimp only
  rw [← mimeBuffer,if_pos hfirst]
  rfl

theorem extensionPairs_nil {ws : List Text} : extensionPairs ws=[] ↔ ws.length≤1 := by
  cases ws with
  | nil => exact ⟨fun _ => Nat.zero_le 1,fun _ => rfl⟩
  | cons w ws =>
    cases ws with
    | nil => exact ⟨fun _ => le_refl 1,fun _ => rfl⟩
    | cons v ws =>
      refine ⟨fun h => (by cases h),fun h => ?_⟩
      rw [List.length_cons,List.length_cons] at h
      omega

/-- A line leads to the calls that it asks for exactly when it is clean. -/
theorem mimeLine_iff (m : Nat → Byte) {line : Text} (hlen : line.length < mimeBufSize) :
    (mimeLine m line).map Prod.snd=some (mimePairs line) ↔ CleanMime m line := by
  by_cases hcomment : (lineText line).head?=some 35
  · rw [mimeLine_skip (.inr hcomment),mimePairs,if_pos hcomment]
    exact ⟨fun _ => .inl hcomment,fun _ => rfl⟩
  rw [mimePairs,if_neg hcomment,CleanMime,or_iff_right hcomment]
  cases htext : lineText line with
  | nil =>
    rw [mimeLine_skip (.inl htext)]
    exact ⟨fun _ => .inr ⟨rfl,fun w hw => absurd hw List.not_mem_nil,fun h => (by cases h)⟩,
      fun _ => rfl⟩
  | cons b u =>
    have hb : b≠35 := fun h => hcomment (by rw [htext,h]; rfl)
    obtain ⟨-,-,-,hends,-⟩ := lineText_split line
    have hzero : ∀ x∈b::u,x≠0 := by
      rintro x hx rfl
      cases hends 0 (htext ▸ hx)
    obtain ⟨cut,hslice,hloop⟩ := mimeLine_loop (m := m) htext hb hlen
    obtain ⟨r,hyields,hrun⟩ :=
      extensionLoop_yields (mimeBufSize+1) cut 0 (Nat.zero_le _) (Nat.lt_succ_self _)
    rw [Nat.sub_zero,hslice,htext] at hyields
    have hcalls : (mimeLine m line).map Prod.snd=r.map extensionPairs := by
      rw [hloop,← hrun,Option.map_map]
      rfl
    rw [hcalls,List.head?_cons,Option.any_some]
    cases hblank : isTabOrBlank b with
    | true =>
      have hstop : isStop b=true := by rw [isStop,hblank]; rfl
      have hnil : r.map extensionPairs=some [] := by
        rw [yields_stop hyields hstop]
        rfl
      rw [hnil,Option.some.injEq,eq_comm,extensionPairs_nil]
      exact ⟨fun h => .inl ⟨rfl,h⟩,fun h => h.elim And.right fun h => (by cases h.1)⟩
    | false =>
      have hhead : ∀ x∈(b::u).head?,isTabOrBlank x=false := fun x hx => by
        rw [← Option.some.inj hx]
        exact hblank
      have hpairs : r.map extensionPairs=some (extensionPairs (mimeWords (b::u))) ↔
          r=some (mimeWords (b::u)) := by
        rw [Option.map_eq_some_iff]
        constructor
        · rintro ⟨es,rfl,hes⟩
          rw [extensionPairs_inj (yields_first hyields hzero hhead rfl) hes]
        · rintro rfl
          exact ⟨_,rfl,rfl⟩
      rw [hpairs,yields_words hyields hzero hhead]
      exact ⟨fun h => .inr ⟨rfl,h⟩,fun h => h.elim (fun h => (by cases h.1)) And.right⟩

/-! The file. -/

/-- Each line is clean in the buffer as the lines before it leave it. -/
def CleanLines : (Nat → Byte) → List Text → Prop
  | _,[] => True
  | m,line::lines => CleanMime m line ∧ ∀ p,mimeLine m line=some p → CleanLines p.1 lines

theorem mimeCalls_iff (m : Nat → Byte) {lines : List Text}
    (hlen : ∀ line∈lines,line.length < mimeBufSize) :
    mimeCalls m lines=some (lines.map mimePairs) ↔ CleanLines m lines := by
  induction lines generalizing m with
  | nil => exact ⟨fun _ => trivial,fun _ => rfl⟩
  | cons line lines ih =>
    rw [List.forall_mem_cons] at hlen
    rw [CleanLines,← mimeLine_iff m hlen.1,mimeCalls]
    cases hline : mimeLine m line with
    | none => exact ⟨fun h => (by cases h),fun h => (by cases h.1)⟩
    | some p =>
      simp only [Option.bind_eq_bind,Option.bind_some,Option.map_some,Option.some.injEq,
        List.map_cons,forall_eq']
      rw [← ih p.1 hlen.2]
      cases hrest : mimeCalls p.1 lines with
      | none =>
        exact ⟨fun h => (by cases h),fun h => (by cases h.2)⟩
      | some rest =>
        rw [Option.bind_some,Option.some.injEq,List.cons.injEq,Option.some.injEq]

/-- The calls for a file whose lines are below the read limit are those that its lines ask for,
in order, exactly when each line is clean. -/
theorem addMimeTypes_iff (stack : Nat → Byte) (file : Text)
    (hlen : ∀ line∈Lines.split 10 file,line.length < 255) :
    addMimeTypesCalls stack file=some ((Lines.split 10 file).map mimePairs) ↔
      CleanLines stack (Lines.split 10 file) := by
  rw [addMimeTypesCalls,fgets_lines file (by decide) hlen]
  exact mimeCalls_iff stack fun line hline => Nat.lt_succ_of_lt (hlen line hline)

theorem addMimeTypes_two :
    (∀ line∈Lines.split 10 (str "t/x x\ntext/z\tz z2"),line.length < 255) ∧
    (addMimeTypesCalls (fun _ => 0) (str "t/x x\ntext/z\tz z2")=
      some ((Lines.split 10 (str "t/x x\ntext/z\tz z2")).map mimePairs) ↔
      CleanLines (fun _ => 0) (Lines.split 10 (str "t/x x\ntext/z\tz z2"))) ∧
    (Lines.split 10 (str "t/x x\ntext/z\tz z2")).map mimePairs=
      [[(str "x",str "t/x")],[(str "z",str "text/z"),(str "z2",str "text/z")]] ∧
    addMimeTypesCalls (fun _ => 0) (str "t/x x\ntext/z\tz z2")=
      some [[(str "x",str "t/x")],[(str "z",str "text/z"),(str "z2",str "text/z")]] :=
  ⟨by decide +kernel,addMimeTypes_iff (fun _ => 0) _ (by decide +kernel),by decide +kernel,
    by decide +kernel⟩

/-- The last line has no end, and the loop reads on in what the first line left. -/
theorem addMimeTypes_stale : (Lines.split 10 (str "text/html a b\ntext/x ab")).map mimePairs=
      [[(str "a",str "text/html"),(str "b",str "text/html")],[(str "ab",str "text/x")]] ∧
    addMimeTypesCalls (fun _ => 0) (str "text/html a b\ntext/x ab")=
      some [[(str "a",str "text/html"),(str "b",str "text/html")],
        [(str "ab",str "text/x"),(str "a",str "text/x"),(str "b",str "text/x")]] ∧
    addMimeTypesCalls (fun _ => 0) (str "text/html a b\ntext/x ab")≠
      some ((Lines.split 10 (str "text/html a b\ntext/x ab")).map mimePairs) := by
  decide +kernel

end Crotalus
