import Mathlib.Data.List.TakeWhile
import Crotalus.Properties.PercentDecode
import Crotalus.Server.Index

namespace Crotalus

/-! The links of a directory page. -/

/-- The name of an entry that has a link made with `escape_string`. -/
structure EntryName (name : Text) : Prop where
  ne : name≠[]
  self : name≠str "."
  parent : name≠str ".."
  printable : ∀ c∈name,32 ≤ c ∧ c ≤ 126 ∧ c≠47

/-- The link of an entry leads to its name, and has no query string. -/
def LinksBack (name : Text) : Prop :=
  ∃ href,indexEntry name=str " <A HREF=\""++href++str "\">"++name++str "</A>\n" ∧
    unescapeUri href=some (name,none)

/-- The table says what its characters say. -/
theorem needsEscapeBit_eq (c : Byte) : needsEscapeBit c=needsEscape c := by
  have hall : ∀ n < 256,needsEscapeBit (UInt8.ofNat n)=needsEscape (UInt8.ofNat n) := by
    decide +kernel
  have h := hall c.toNat c.toNat_lt
  rwa [UInt8.ofNat_toNat] at h

theorem escapeByte_eq (c : Byte) : escapeByte c=escapeHttp c := by
  rw [escapeByte,escapeHttp,needsEscapeBit_eq]

/-- The escape of a printable character stands for it. -/
theorem escape_decodes {c : Byte} (hlow : 32 ≤ c) (hhigh : c ≤ 126) :
    inRange (hexDigit (c.toNat/16),hexDigit (c.toNat%16))=true ∧
      UInt8.ofNat (hexToDecimal (hexDigit (c.toNat/16)) (hexDigit (c.toNat%16))).toNat=c := by
  have hall : ∀ n < 127,32 ≤ n → inRange (hexDigit (n/16),hexDigit (n%16))=true ∧
      (hexToDecimal (hexDigit (n/16)) (hexDigit (n%16))).toNat=n := by
    decide +kernel
  have hlow' : 32 ≤ c.toNat := UInt8.le_iff_toNat_le.mp hlow
  have hhigh' : c.toNat ≤ 126 := UInt8.le_iff_toNat_le.mp hhigh
  obtain ⟨hin,hval⟩ := hall c.toNat (by omega) hlow'
  rw [hval,UInt8.ofNat_toNat]
  exact ⟨hin,rfl⟩

/-- A character that is not escaped is read as it is, but for the question mark. -/
theorem unescaped_plain {c : Byte} (h : needsEscape c=false) (hc : c≠63) : c≠37 ∧ c≠35 := by
  constructor <;> rintro rfl <;> exact absurd h (by decide)

/-- Reading stops at the first question mark of the name, which is not escaped. -/
theorem unescapeUri_escaped {name : Text} (h : ∀ c∈name,32 ≤ c ∧ c ≤ 126) :
    ∃ query,unescapeUri (name.flatMap escapeByte)=some (name.takeWhile (· ≠ 63),query) ∧
      (63∉name → query=none) := by
  induction name with
  | nil => exact ⟨none,rfl,fun _ => rfl⟩
  | cons c name ih =>
    obtain ⟨query,hrest,hnone⟩ := ih fun d hd => h d (List.mem_cons_of_mem c hd)
    obtain ⟨hlow,hhigh⟩ := h c List.mem_cons_self
    rw [List.flatMap_cons,escapeByte_eq,escapeHttp]
    by_cases hq : c=63
    · subst hq
      rw [if_neg (by decide),List.singleton_append,unescapeUri_stop (.inl rfl),
        List.takeWhile_cons_of_neg (by decide)]
      exact ⟨_,rfl,fun hmem => absurd List.mem_cons_self hmem⟩
    · have htake : (c::name).takeWhile (· ≠ 63)=c::name.takeWhile (· ≠ 63) :=
        List.takeWhile_cons_of_pos (by simpa using hq)
      have hlater : 63∉c::name → query=none := fun hmem =>
        hnone fun hn => hmem (List.mem_cons_of_mem c hn)
      refine ⟨query,?_,hlater⟩
      rw [htake]
      cases hesc : needsEscape c with
      | true =>
        obtain ⟨hin,hval⟩ := escape_decodes hlow hhigh
        rw [if_pos rfl]
        change unescapeUri (37::_::_::name.flatMap escapeByte)=_
        rw [unescapeUri_escape,if_pos hin,hrest,hval]
        rfl
      | false =>
        obtain ⟨h37,h35⟩ := unescaped_plain hesc hq
        rw [if_neg Bool.false_ne_true,List.singleton_append,unescapeUri_plain h37 hq h35,hrest]
        rfl

theorem indexEntry_link {name : Text} (h : EntryName name) :
    indexEntry name=
      str " <A HREF=\""++name.flatMap escapeByte++str "\">"++name++str "</A>\n" := by
  rw [indexEntry,if_neg h.self,if_neg h.parent,escapeStringNew,if_neg h.ne]

/-- The link of an entry leads back to it exactly when its name has no question mark. -/
theorem indexLink_back_iff (name : Text) (h : EntryName name) : LinksBack name ↔ 63∉name := by
  obtain ⟨query,hread,hnone⟩ := unescapeUri_escaped fun c hc =>
    ⟨(h.printable c hc).1,(h.printable c hc).2.1⟩
  constructor
  · rintro ⟨href,hentry,hback⟩ hmem
    rw [indexEntry_link h] at hentry
    have hhref : name.flatMap escapeByte=href := by
      simpa only [List.append_cancel_right_eq,List.append_cancel_left_eq] using hentry
    rw [← hhref,hread] at hback
    have htake : name.takeWhile (· ≠ 63)=name := congrArg Prod.fst (Option.some.inj hback)
    have hall := List.takeWhile_eq_self_iff.mp htake 63 hmem
    exact absurd rfl (of_decide_eq_true hall)
  · intro hmem
    have htake : name.takeWhile (· ≠ 63)=name :=
      List.takeWhile_eq_self_iff.mpr fun c hc => decide_eq_true fun heq => hmem (heq ▸ hc)
    refine ⟨_,indexEntry_link h,?_⟩
    rw [hread,htake,hnone hmem]

theorem indexLink_back_percent : LinksBack (str "50% #1") ↔ 63∉str "50% #1" :=
  indexLink_back_iff (str "50% #1") ⟨by decide +kernel,by decide +kernel,by decide +kernel,by decide +kernel⟩

/-- The question mark is not escaped, and starts a query string. -/
theorem indexLink_question : EntryName (str "a?b") ∧
    indexEntry (str "a?b")=str " <A HREF=\"a?b\">a?b</A>\n" ∧
    unescapeUri (str "a?b")=some (str "a",some (str "b")) ∧ ¬LinksBack (str "a?b") := by
  refine ⟨⟨by decide +kernel,by decide +kernel,by decide +kernel,by decide +kernel⟩,by decide +kernel,by decide +kernel,?_⟩
  rintro ⟨href,hentry,hback⟩
  have hhref : str "a?b"=href := by
    have hown : indexEntry (str "a?b")=
        str " <A HREF=\""++str "a?b"++str "\">"++str "a?b"++str "</A>\n" := by decide +kernel
    rw [hown] at hentry
    simpa only [List.append_cancel_right_eq,List.append_cancel_left_eq] using hentry
  rw [← hhref] at hback
  exact absurd hback (by decide +kernel)

end Crotalus
