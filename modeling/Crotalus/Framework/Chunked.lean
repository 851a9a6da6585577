import Mathlib.Data.List.Basic

namespace Chunked

/-! Chunked transfer coding: a block is its length in hexadecimal digits, CR LF, its bytes
and CR LF; the block of length 0 ends the body. How the writer prints a length is left
open, so long as the digits say it. -/

def hexVal (b : UInt8) : Option Nat :=
  if 48≤b ∧ b≤57 then some (b.toNat-48)
  else if 97≤b ∧ b≤102 then some (b.toNat-87)
  else if 65≤b ∧ b≤70 then some (b.toNat-55)
  else none

def readDigits : Nat → List UInt8 → Option Nat
  | acc,[] => some acc
  | acc,b::bs => (hexVal b).bind fun d => readDigits (acc*16+d) bs

/-- The text is the number in hexadecimal digits. -/
def Numeral (s : List UInt8) (n : Nat) : Prop := s≠[] ∧ readDigits 0 s=some n

/-- The digits up to the end of the line, and what follows the line. -/
def readLine : Nat → List UInt8 → Option (Nat × List UInt8)
  | _,[] => none
  | acc,b::bs =>
    if b=13 then if bs.head?=some 10 then some (acc,bs.tail) else none
    else (hexVal b).bind fun d => readLine (acc*16+d) bs

def readSize (bs : List UInt8) : Option (Nat × List UInt8) :=
  if bs.head?=some 13 then none else readLine 0 bs

def readEnd : List UInt8 → Option (List UInt8)
  | 13::10::rest => some rest
  | _ => none

/-- The payload of at most `k` blocks and the bytes behind the block that ends the body. -/
def decodeBlocks : Nat → List UInt8 → Option (List UInt8 × List UInt8)
  | 0,_ => none
  | k+1,bs =>
    (readSize bs).bind fun (n,body) =>
      if body.length < n then none
      else (readEnd (body.drop n)).bind fun rest =>
        if n=0 then some ([],rest)
        else (decodeBlocks k rest).map fun (payload,rest) => (body.take n++payload,rest)

def decode (bs : List UInt8) : Option (List UInt8 × List UInt8) := decodeBlocks bs.length bs

theorem readDigits_append (acc : Nat) (s t : List UInt8) :
    readDigits acc (s++t)=(readDigits acc s).bind fun a => readDigits a t := by
  induction s generalizing acc with
  | nil => rfl
  | cons b s ih =>
    rw [List.cons_append,readDigits,readDigits]
    cases hexVal b with
    | none => rfl
    | some d => exact ih _

theorem ne_cr_of_hexVal {b : UInt8} {d : Nat} (h : hexVal b=some d) : b≠13 := by
  rintro rfl
  rw [show hexVal 13=none by decide] at h
  exact nomatch h

theorem readLine_digits {s : List UInt8} {acc n : Nat} (h : readDigits acc s=some n)
    (rest : List UInt8) : readLine acc (s++13::10::rest)=some (n,rest) := by
  induction s generalizing acc with
  | nil =>
    obtain rfl : acc=n := Option.some.inj h
    rfl
  | cons b s ih =>
    obtain ⟨d,hd,hs⟩ := Option.bind_eq_some_iff.mp h
    rw [List.cons_append,readLine,if_neg (ne_cr_of_hexVal hd),hd]
    exact ih hs

theorem readSize_numeral {s : List UInt8} {n : Nat} (h : Numeral s n) (rest : List UInt8) :
    readSize (s++13::10::rest)=some (n,rest) := by
  obtain ⟨hne,hs⟩ := h
  cases s with
  | nil => exact absurd rfl hne
  | cons b s =>
    obtain ⟨d,hd,-⟩ := Option.bind_eq_some_iff.mp hs
    have hb : ¬(b::s++13::10::rest).head?=some 13 := by
      simpa using ne_cr_of_hexVal hd
    rw [readSize,if_neg hb]
    exact readLine_digits hs rest

section Encode

variable (line : Nat → List UInt8)

def encode (w : List UInt8) : List UInt8 := line w.length++[13,10]++w++[13,10]

def body (ws : List (List UInt8)) : List UInt8 := (ws.map (encode line)).flatten

@[simp] theorem body_nil : body line []=[] := rfl

@[simp] theorem body_cons (w : List UInt8) (ws : List (List UInt8)) :
    body line (w::ws)=encode line w++body line ws := rfl

theorem body_append (ws vs : List (List UInt8)) :
    body line (ws++vs)=body line ws++body line vs := by
  rw [body,List.map_append,List.flatten_append,body,body]

theorem length_encode (w : List UInt8) : 0 < (encode line w).length := by
  simp only [encode,List.length_append,List.length_cons]
  omega

theorem length_le_body (ws : List (List UInt8)) : ws.length≤(body line ws).length := by
  induction ws with
  | nil => exact Nat.le_refl 0
  | cons w ws ih =>
    have hw := length_encode line w
    rw [body_cons,List.length_append,List.length_cons]
    omega

variable {line}

theorem decodeBlocks_encode {w : List UInt8} (h : Numeral (line w.length) w.length) (k : Nat)
    (rest : List UInt8) :
    decodeBlocks (k+1) (encode line w++rest)=
      if w=[] then some ([],rest)
      else (decodeBlocks k rest).map fun (payload,rest) => (w++payload,rest) := by
  have hbs : encode line w++rest=line w.length++13::10::(w++13::10::rest) := by
    simp [encode]
  rw [decodeBlocks,hbs,readSize_numeral h,Option.bind_some]
  have hlen : ¬(w++13::10::rest).length < w.length := by
    rw [List.length_append]
    omega
  simp only [if_neg hlen,List.drop_left,List.take_left,readEnd,Option.bind_some,
    List.length_eq_zero_iff]

theorem decodeBlocks_body {ws : List (List UInt8)}
    (hline : ∀ w∈ws,Numeral (line w.length) w.length) (hne : ∀ w∈ws,w≠[])
    (h0 : Numeral (line 0) 0) {k : Nat} (hk : ws.length < k) (rest : List UInt8) :
    decodeBlocks k (body line ws++(encode line []++rest))=some (ws.flatten,rest) := by
  induction ws generalizing k with
  | nil =>
    obtain ⟨k,rfl⟩ : ∃ j,k=j+1 := ⟨k-1,by simp only [List.length_nil] at hk; omega⟩
    rw [body_nil,List.nil_append,decodeBlocks_encode h0,if_pos rfl]
    rfl
  | cons w ws ih =>
    obtain ⟨k,rfl⟩ : ∃ j,k=j+1 := ⟨k-1,by simp only [List.length_cons] at hk; omega⟩
    have hws := ih (fun v hv => hline v (List.mem_cons_of_mem _ hv))
      (fun v hv => hne v (List.mem_cons_of_mem _ hv)) (Nat.lt_of_succ_lt_succ hk)
    rw [body_cons,List.append_assoc,decodeBlocks_encode (hline w List.mem_cons_self),
      if_neg (hne w List.mem_cons_self),hws]
    rfl

/-- A body of non-empty blocks is read back, and nothing of what follows it. -/
theorem decode_body {ws : List (List UInt8)}
    (hline : ∀ w∈ws,Numeral (line w.length) w.length) (hne : ∀ w∈ws,w≠[])
    (h0 : Numeral (line 0) 0) (rest : List UInt8) :
    decode (body line ws++(encode line []++rest))=some (ws.flatten,rest) := by
  refine decodeBlocks_body hline hne h0 ?_ rest
  have hle := length_le_body line ws
  have hend := length_encode line []
  simp only [List.length_append]
  omega

/-- An empty block ends the body for a reader, and the blocks behind it are left over. -/
theorem nonempty_of_decode {ws : List (List UInt8)}
    (hline : ∀ w∈ws,Numeral (line w.length) w.length) (h0 : Numeral (line 0) 0)
    {p : List UInt8} (h : decode (body line ws++encode line [])=some (p,[])) : ∀ w∈ws,w≠[] := by
  intro w hw hnil
  subst hnil
  obtain ⟨us,vs,rfl,hus⟩ := List.eq_append_cons_of_mem hw
  have hearly : decode (body line (us++[]::vs)++encode line [])=
      some (us.flatten,body line vs++encode line []) := by
    rw [body_append,body_cons,List.append_assoc,List.append_assoc]
    exact decode_body (fun u hu => hline u (List.mem_append_left _ hu))
      (fun u hu hnil => hus (hnil ▸ hu)) h0 _
  have hrest : body line vs++encode line []=[] :=
    congrArg Prod.snd (Option.some.inj (hearly.symm.trans h))
  have hend := length_encode line []
  rw [(List.append_eq_nil_iff.mp hrest).2] at hend
  exact Nat.lt_irrefl 0 hend

/-- A reader gets the whole payload, with nothing left over, just when no block before the
end is empty. -/
theorem decode_body_iff {ws : List (List UInt8)}
    (hline : ∀ w∈ws,Numeral (line w.length) w.length) (h0 : Numeral (line 0) 0) :
    decode (body line ws++encode line [])=some (ws.flatten,[]) ↔ ∀ w∈ws,w≠[] := by
  constructor
  · exact nonempty_of_decode hline h0
  · intro hne
    have h := decode_body hline hne h0 []
    rwa [List.append_nil] at h

end Encode

end Chunked
