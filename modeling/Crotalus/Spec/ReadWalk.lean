import Crotalus.Spec.Walk

namespace Crotalus

open Stateful

/-! The reading of a header. -/

/-- The request without what the reading of its header fills in. -/
def Request.unread (r : Request) : Request :=
  { r.bare with
    httpVersion := .unset, method := .unset, logline := none, headerArea := .stream
    headerLine := 0, headerEnd := 0, parsePos := 0, ifModifiedSince := none, headerHost := none
    headerUserAgent := none, headerReferer := none, host := none, contentType := none
    contentLength := none, clientStream := [], encoding := [] }

/-- The parts of the end of a header respect `R`. -/
structure Heads (e : Config) (R : Conn → Conn → Prop) : Prop extends Serves e R, Translates e R where
  line {f : Request → Request} (h : ∀ r, (f r).unread = r.unread) : Rel R (modReq f)
  headerEnd : Rel R (mark .headerEnd)
  post : Rel R (openPost e)

/-- And so do those of the reading of its lines. -/
structure Parses (e : Config) (R : Conn → Conn → Prop) : Prop extends Heads e R where
  logline : Rel R (mark .logline)
  optionLine : Rel R (mark .optionLine)
  automaton (uc : Byte) : Rel R (do setStatus (headerStatus (← getReq).status uc))
  die : Rel R (setStatus .dead)
  recv (k : Nat) : Rel R (sockRead k)
  ended (c : Conn) (h : c.req.status = .bodyRead) : R c (exec (headerDone e) c)

section Parse

variable {e : Config} {R : Conn → Conn → Prop} {α : Type}

/-- A field of the header is filled in. -/
theorem Heads.filling (h : Heads e R) {f : Request → Request} {m : Srv α}
    (hf : ∀ r, (f r).unread = r.unread) (hm : Rel R m) : Rel R (modReq f >>= fun _ => m) :=
  h.bind (h.line hf) fun _ => hm

theorem chooseHost_rel (h : Heads e R) : Rel R (chooseHost e) := by
  unfold chooseHost
  split
  · exact h.pure _
  · refine readReq_rel fun r => h.bind h.alloc fun _ => ?_
    split
    · refine h.filling (fun _ => rfl) ?_
      split
      · exact badRequest_rel h.toWalks
      · exact h.pure _
    · exact h.returning (sendRError_rel h.toWalks) _

theorem prepareRequest_rel (h : Heads e R) : Rel R (prepareRequest e) := by
  refine readReq_rel fun r => ?_
  split
  · exact h.returning (sendRError_rel h.toWalks) _
  refine h.bind (decodeUri_rel h.toWalks) fun _ => ?_
  split
  · refine h.bind (chooseHost_rel h) fun _ => ?_
    split
    · refine h.bind (translateUri_rel h.toTranslates) fun _ => ?_
      split
      · exact h.returning (squashKa_rel h.toFills) _
      · exact h.pure _
    · exact h.pure _
  · exact h.pure _

theorem dispatchRequest_rel (h : Heads e R) : Rel R (dispatchRequest e) := by
  refine readReq_rel fun r => ?_
  split
  · exact h.post
  split
  · exact initCgi_rel h.toLaunches
  · exact answerGet_rel h.toServes

theorem endHeader_rel (h : Heads e R) : Rel R (endHeader e) := by
  refine h.bind h.headerEnd fun _ => h.bind (prepareRequest_rel h) fun _ => ?_
  split
  · exact dispatchRequest_rel h
  · exact h.pure _

theorem setVersion_rel (h : Parses e R) (v : Version) : Rel R (setVersion e v) := by
  refine h.filling (fun _ => rfl) <| readReq_rel fun r => ?_
  split
  · exact badRequest_rel h.toWalks
  · exact h.setting (fun _ => rfl) (h.pure _)

theorem processLogline_rel (h : Parses e R) (line : Text) : Rel R (processLogline e line) := by
  have hbad := badRequest_rel h.toWalks
  refine h.bind h.logline fun _ => h.filling (fun _ => rfl) ?_
  split
  · exact hbad
  split
  · exact h.returning (sendRNotImplemented_rel h.toWalks) _
  · refine h.filling (fun _ => rfl) ?_
    dsimp only
    split
    · exact hbad
    split
    · exact hbad
    · refine h.filling (fun _ => rfl) ?_
      split
      · exact hbad
      · exact setVersion_rel h _

theorem rangeOption_rel (h : Walks e R) (val : Text) : Rel R (rangeOption e val) := by
  refine readReq_rel fun r => ?_
  split
  · exact h.pure _
  · refine h.setting (fun _ => rfl) ?_
    split
    · exact h.pure _
    · exact h.returning (sendRInvalidRange_rel h) _

theorem knownOption_rel (h : Parses e R) (name val : Text) : Rel R (knownOption e name val) := by
  have hset : ∀ (f : Request → Request), (∀ r, (f r).unread = r.unread) →
      Rel R (modReq f >>= fun _ => Pure.pure (some true)) := fun f hf => h.filling hf (h.pure _)
  have henv : ∀ (key : Text) (a b : Option Bool), Rel R (do
      if ← addCgiEnv key val true then return a else return b) := fun key a b =>
    h.bind (addCgiEnv_rel h.toFills _ _ _) fun _ => Rel.ite (h.pure _) (h.pure _)
  refine readReq_rel fun r => ?_
  refine Rel.ite (hset _ ?_) <| Rel.ite (h.pure _) <| Rel.ite (hset _ ?_) <| Rel.ite (hset _ ?_) <|
    Rel.ite (hset _ ?_) <| Rel.ite (hset _ ?_) <| Rel.ite (hset _ ?_) <| Rel.ite ?referer <|
    Rel.ite (rangeOption_rel h.toWalks val) <| Rel.ite ?agent (h.pure _)
  case referer => exact h.filling (fun _ => rfl) (henv _ _ _)
  case agent =>
    refine h.filling (fun _ => rfl) ?_
    exact h.bind (addCgiEnv_rel h.toFills _ _ _) fun _ => h.pure _
  all_goals exact fun _ => rfl

theorem processOptionLine_rel (h : Parses e R) (line : Text) :
    Rel R (processOptionLine e line) := by
  refine h.bind h.optionLine fun _ => ?_
  split
  · exact h.pure _
  split
  · exact h.pure _
  · refine h.bind (knownOption_rel h _ _) fun _ => ?_
    split
    · exact h.pure _
    · exact addCgiEnv_rel h.toFills _ _ _

theorem headerLineDone_rel (h : Parses e R) : Rel R (headerLineDone e) := by
  refine readReq_rel fun r => ?_
  split
  · exact h.returning (sendRBadRequest_rel h.toWalks) _
  split
  · refine h.bind (processOptionLine_rel h _) fun _ => ?_
    split
    · exact h.filling (fun _ => rfl) (h.pure _)
    · exact h.pure _
  · refine h.bind (processLogline_rel h _) fun _ => ?_
    split
    · refine readReq_rel fun r' => ?_
      split
      · exact h.bind (endHeader_rel h.toHeads) fun _ => h.pure _
      · exact h.filling (fun _ => rfl) (h.pure _)
    · exact h.pure _

theorem readByte_rel (h : Parses e R) (uc : Byte) : Rel R (readByte e uc) := by
  unfold readByte
  split
  · exact h.returning (sendRBadRequest_rel h.toWalks) _
  refine h.filling (fun _ => rfl) fun c => ?_
  refine h.trans (h.automaton uc c) ?_
  simp only [exec_bind, value_getReq, exec_getReq]
  generalize exec (setStatus (headerStatus c.req.status uc)) c = c1
  by_cases hlf : c1.req.status = .oneLf
  · simp only [if_pos hlf]
    exact headerLineDone_rel h c1
  by_cases hb : c1.req.status = .bodyRead
  · simp only [if_neg hlf, if_pos hb]
    exact h.ended c1 hb
  · simp only [if_neg hlf, if_neg hb]
    exact h.refl c1

theorem readLoop_rel (h : Parses e R) (k : Nat) : Rel R (readLoop e k) := by
  induction k with
  | zero => exact h.pure _
  | succ k ih =>
    refine readReq_rel fun r => ?_
    split
    · exact h.pure _
    · refine h.bind (readByte_rel h _) fun _ => ?_
      split
      · exact h.pure _
      · exact ih

theorem readMore_rel (h : Parses e R) : Rel R readMore := by
  refine readReq_rel fun r => ?_
  split
  · exact h.setting (fun _ => rfl) (h.returning h.die _)
  · refine h.bind (h.recv _) fun _ => ?_
    split
    · exact h.pure _
    · exact h.pure _
    · exact h.setting (fun _ => rfl) (h.pure _)
    · split
      · exact h.setting (fun _ => rfl) (h.pure _)
      · exact h.filling (fun _ => rfl) (h.pure _)

theorem readHeader_rel (h : Parses e R) : Rel R (readHeader e) := by
  refine readReq_rel fun r => h.bind (readLoop_rel h _) fun _ => ?_
  split
  · exact h.pure _
  · refine readReq_rel fun r' => ?_
    split
    · exact readMore_rel h
    · exact h.pure _

end Parse

end Crotalus
