import KogmoRtdb.Lib.Lts
import KogmoRtdb.Db

/-!
# The trace queue

Writers announce what they do in a message queue of fixed length. A full queue drops the
message and its sender does not say so: the receiver is to notice it from the number of
free places that `kogmo_rtdb_obj_trace_receive` answers. That call counts the messages,
takes one and counts again, and senders run in between.

A drop is noticed if the queue was full at one of the two counts. `Unseen` is the moment
in which it is not: the first count has found a free place, and the message that makes
room is yet to be taken.
-/

namespace KogmoRtdb

/-- `enum kogmo_rtdb_trace_event`. -/
inductive TraceEvent where
  | inserted | deleted | updated | changed
  deriving DecidableEq, Repr

/-- `struct kogmo_rtdb_trace_msg`. -/
structure TraceMsg where
  oid : ObjId
  ts : Timestamp
  event : TraceEvent
  objSlot : Int
  histSlot : Int
  deriving DecidableEq, Repr

/-- The queue, oldest message first, and the shared variables that say whether it is in
use. -/
structure TraceBuf where
  rtdbTracebufsize : Nat
  rtdbTrace : Bool
  messages : List TraceMsg
  deriving DecidableEq, Repr

/-- `mq_send` on the non-blocking descriptor: `none` when the queue is full. -/
def TraceBuf.mqSend (buf : TraceBuf) (msg : TraceMsg) : Option TraceBuf :=
  if buf.messages.length < buf.rtdbTracebufsize then
    some { buf with messages := buf.messages ++ [msg] }
  else none

/-- `kogmo_rtdb_obj_trace_send`: its answer, and the queue. -/
def traceSend (buf : TraceBuf) (msg : TraceMsg) : Result × TraceBuf :=
  if buf.rtdbTracebufsize = 0 then (.error .invalid, buf)
  else if buf.rtdbTrace = false then (.error .invalid, buf)
  else (.ok 0, (buf.mqSend msg).getD buf)

def TraceBuf.Drops (buf : TraceBuf) : Prop :=
  buf.rtdbTracebufsize ≠ 0 ∧ buf.rtdbTrace = true ∧
    buf.rtdbTracebufsize ≤ buf.messages.length

instance : DecidablePred TraceBuf.Drops := fun buf => by
  unfold TraceBuf.Drops
  infer_instance

/-- Where the receiver is in `kogmo_rtdb_obj_trace_receive`. -/
inductive Receiver where
  | idle
  | counted (msgcount1 : Nat)
  | taken (msgcount1 : Nat) (tracemsg : TraceMsg)
  deriving DecidableEq, Repr

/-- A lost message, or the end of a receive call with its message and answer. -/
inductive TraceNote where
  | dropped (msg : TraceMsg)
  | received (tracemsg : TraceMsg) (freebuf : Int)
  deriving DecidableEq, Repr

/-- The queue, its receiver, and what has happened, oldest first. -/
structure TraceState where
  buf : TraceBuf
  receiver : Receiver
  log : List TraceNote
  deriving DecidableEq, Repr

/-- A sender's call, or one of the three steps of the receiver's. -/
inductive TraceOp where
  | send (msg : TraceMsg)
  | count
  | take
  | recount
  deriving DecidableEq, Repr

/-- `kogmo_rtdb_obj_trace_receive` answers the free places, by the larger count. -/
def freeBuf (buf : TraceBuf) (msgcount1 msgcount2 : Nat) : Int :=
  buf.rtdbTracebufsize - (max msgcount1 msgcount2 : Nat)

/-- One step of a sender or of the receiver, who blocks on an empty queue. -/
def traceStep (s : TraceState) : TraceOp → Option TraceState
  | .send msg =>
      some { s with
        buf := (traceSend s.buf msg).2
        log := if s.buf.Drops then s.log ++ [.dropped msg] else s.log }
  | .count =>
      match s.receiver with
      | .idle => some { s with receiver := .counted s.buf.messages.length }
      | _ => none
  | .take =>
      match s.receiver, s.buf.messages with
      | .counted msgcount1, msg :: rest =>
          some { s with
            buf := { s.buf with messages := rest }
            receiver := .taken msgcount1 msg }
      | _, _ => none
  | .recount =>
      match s.receiver with
      | .taken msgcount1 msg =>
          some { s with
            receiver := .idle
            log := s.log ++
              [.received msg (freeBuf s.buf msgcount1 s.buf.messages.length)] }
      | _ => none

def traceLts : Lts TraceState TraceOp where
  init s := s.buf.rtdbTrace = true ∧ s.buf.messages.length ≤ s.buf.rtdbTracebufsize ∧
    s.receiver = .idle ∧ s.log = []
  step := traceStep

/-! ## Losses that are noticed -/

/-- The answers of the receive calls, in the order of their ends. -/
def freeBufs (log : List TraceNote) : List Int :=
  log.filterMap fun
    | .dropped _ => none
    | .received _ freebuf => some freebuf

/-- After every loss, one of the next two receive calls answers 0. -/
def LossSignalled (log : List TraceNote) : Prop :=
  ∀ earlier msg later, log = earlier ++ .dropped msg :: later →
    2 ≤ (freeBufs later).length → 0 ∈ (freeBufs later).take 2

/-- The first count is made, and has found a free place. -/
def Receiver.FoundFree (rtdbTracebufsize : Nat) : Receiver → Prop
  | .counted msgcount1 => msgcount1 < rtdbTracebufsize
  | _ => False

/-- A message sent now is lost, and the queue is not counted again before it has a free
place. -/
def Unseen (s : TraceState) : Prop :=
  s.buf.Drops ∧ s.receiver.FoundFree s.buf.rtdbTracebufsize

def SeenGuard (s : TraceState) (op : TraceOp) : Prop :=
  (∃ msg, op = .send msg) → ¬ Unseen s

/-- The running or the next receive call answers 0, whatever is sent. -/
def Noticed (s : TraceState) : Prop :=
  match s.receiver with
  | .idle => s.buf.rtdbTracebufsize ≤ s.buf.messages.length
  | .counted msgcount1 => s.buf.rtdbTracebufsize ≤ msgcount1
  | .taken msgcount1 _ =>
      s.buf.rtdbTracebufsize ≤ max msgcount1 s.buf.messages.length

/-- Counts do not exceed the queue's length, nor does the queue. -/
structure InBounds (s : TraceState) : Prop where
  tracing : s.buf.rtdbTrace = true
  queue : s.buf.messages.length ≤ s.buf.rtdbTracebufsize
  count : ∀ msgcount1, (s.receiver = .counted msgcount1 ∨
    ∃ msg, s.receiver = .taken msgcount1 msg) → msgcount1 ≤ s.buf.rtdbTracebufsize

def LossNoticed (s : TraceState) : Prop :=
  ∀ earlier msg later, s.log = earlier ++ .dropped msg :: later →
    (freeBufs later).head? = some 0 ∨ freeBufs later = [] ∧ Noticed s

variable {s s' : TraceState} {op : TraceOp} {buf : TraceBuf} {msg : TraceMsg}

theorem traceSend_of_drops (h : buf.Drops) : (traceSend buf msg).2 = buf := by
  obtain ⟨hsize, htrace, hfull⟩ := h
  have hnone : buf.mqSend msg = none := if_neg (Nat.not_lt.mpr hfull)
  rw [traceSend, if_neg hsize, if_neg (by rw [htrace]; decide), hnone]
  rfl

theorem traceSend_of_room (msg : TraceMsg) (h : ¬ buf.Drops) :
    (traceSend buf msg).2 = buf ∨
      buf.messages.length < buf.rtdbTracebufsize ∧
        (traceSend buf msg).2 = { buf with messages := buf.messages ++ [msg] } := by
  unfold traceSend
  split
  · exact Or.inl rfl
  · split
    · exact Or.inl rfl
    · rename_i hsize htrace
      have hroom : buf.messages.length < buf.rtdbTracebufsize := by
        by_contra hfull
        exact h ⟨hsize, eq_true_of_ne_false htrace, Nat.not_lt.mp hfull⟩
      refine Or.inr ⟨hroom, ?_⟩
      rw [TraceBuf.mqSend, if_pos hroom]
      rfl

inductive TraceMove (s : TraceState) : TraceOp → TraceState → Prop where
  | drop (msg : TraceMsg) : s.buf.Drops →
      TraceMove s (.send msg) { s with log := s.log ++ [.dropped msg] }
  | refuse (msg : TraceMsg) : TraceMove s (.send msg) s
  | send (msg : TraceMsg) : s.buf.messages.length < s.buf.rtdbTracebufsize →
      TraceMove s (.send msg) { s with buf := { s.buf with messages := s.buf.messages ++ [msg] } }
  | count : s.receiver = .idle →
      TraceMove s .count { s with receiver := .counted s.buf.messages.length }
  | take {msgcount1 : Nat} {msg : TraceMsg} {rest : List TraceMsg} :
      s.receiver = .counted msgcount1 → s.buf.messages = msg :: rest →
      TraceMove s .take
        { s with buf := { s.buf with messages := rest }, receiver := .taken msgcount1 msg }
  | recount {msgcount1 : Nat} {msg : TraceMsg} : s.receiver = .taken msgcount1 msg →
      TraceMove s .recount
        { s with
          receiver := .idle
          log := s.log ++ [.received msg (freeBuf s.buf msgcount1 s.buf.messages.length)] }

theorem traceStep_move (hs : traceStep s op = some s') : TraceMove s op s' := by
  unfold traceStep at hs
  cases op with
  | send msg =>
      cases hs
      by_cases hdrop : s.buf.Drops
      · rw [if_pos hdrop, traceSend_of_drops hdrop]
        exact .drop msg hdrop
      · rw [if_neg hdrop]
        rcases traceSend_of_room msg hdrop with hsame | ⟨hroom, hsent⟩
        · rw [hsame]
          exact .refuse msg
        · rw [hsent]
          exact .send msg hroom
  | count =>
      dsimp only at hs
      split at hs
      · cases hs
        exact .count ‹_›
      · cases hs
  | take =>
      dsimp only at hs
      split at hs
      · cases hs
        exact .take ‹_› ‹_›
      · cases hs
  | recount =>
      dsimp only at hs
      split at hs
      · cases hs
        exact .recount ‹_›
      · cases hs

theorem inBounds_step (hb : InBounds s) (hs : traceStep s op = some s') : InBounds s' := by
  obtain ⟨htrace, hqueue, hcount⟩ := hb
  cases traceStep_move hs with
  | drop msg hdrop => exact ⟨htrace, hqueue, hcount⟩
  | refuse msg => exact ⟨htrace, hqueue, hcount⟩
  | send msg hroom =>
      refine ⟨htrace, ?_, hcount⟩
      rw [List.length_append]
      exact hroom
  | count hr =>
      refine ⟨htrace, hqueue, ?_⟩
      rintro msgcount1 (heq | ⟨msg, heq⟩)
      · cases heq
        exact hqueue
      · cases heq
  | @take c msg rest hr hm =>
      refine ⟨htrace, ?_, ?_⟩
      · rw [hm] at hqueue
        exact Nat.le_of_succ_le hqueue
      · rintro msgcount1 (heq | ⟨msg', heq⟩)
        · cases heq
        · cases heq
          exact hcount c (Or.inl hr)
  | recount hr =>
      refine ⟨htrace, hqueue, ?_⟩
      rintro msgcount1 (heq | ⟨msg, heq⟩) <;> cases heq

/-- A message that is lost at a moment that is seen will be noticed. -/
theorem noticed_of_drops (hdrop : s.buf.Drops) (hseen : ¬ Unseen s) : Noticed s := by
  have hfull := hdrop.2.2
  unfold Noticed
  split
  · exact hfull
  · rename_i msgcount1 hr
    by_contra hlt
    refine hseen ⟨hdrop, ?_⟩
    rw [hr]
    exact Nat.not_le.mp hlt
  · exact hfull.trans (Nat.le_max_right _ _)

/-- What will be noticed stays so until the call has answered. -/
theorem noticed_step (hn : Noticed s) (hs : TraceMove s op s') (hop : op ≠ .recount) :
    Noticed s' := by
  cases hs with
  | drop msg hdrop => exact hn
  | refuse msg => exact hn
  | send msg hroom =>
      have hlen : s.buf.messages.length ≤ (s.buf.messages ++ [msg]).length := by
        rw [List.length_append]
        exact Nat.le_add_right _ _
      unfold Noticed at hn ⊢
      cases hr : s.receiver with
      | idle =>
          rw [hr] at hn
          exact hn.trans hlen
      | counted msgcount1 =>
          rw [hr] at hn
          exact hn
      | taken msgcount1 msg =>
          rw [hr] at hn
          exact hn.trans (Nat.max_le.mpr ⟨Nat.le_max_left _ _, hlen.trans (Nat.le_max_right _ _)⟩)
  | count hr =>
      rw [Noticed, hr] at hn
      exact hn
  | take hr hm =>
      rw [Noticed, hr] at hn
      exact hn.trans (Nat.le_max_left _ _)
  | recount hr => exact absurd rfl hop

theorem freeBuf_eq_zero {msgcount1 msgcount2 : Nat} (h1 : msgcount1 ≤ buf.rtdbTracebufsize)
    (h2 : msgcount2 ≤ buf.rtdbTracebufsize)
    (h : buf.rtdbTracebufsize ≤ max msgcount1 msgcount2) : freeBuf buf msgcount1 msgcount2 = 0 := by
  have heq : max msgcount1 msgcount2 = buf.rtdbTracebufsize := Nat.le_antisymm (max_le h1 h2) h
  rw [freeBuf, heq, Int.sub_self]

@[simp] theorem freeBufs_append (log log' : List TraceNote) :
    freeBufs (log ++ log') = freeBufs log ++ freeBufs log' := List.filterMap_append

/-- An entry of a list with one entry more at its end. -/
theorem split_append_singleton {α : Type} {log earlier later : List α} {e x : α}
    (h : log ++ [e] = earlier ++ x :: later) :
    (later = [] ∧ e = x) ∨ ∃ later', later = later' ++ [e] ∧ log = earlier ++ x :: later' := by
  rcases List.eq_nil_or_concat later with rfl | ⟨later', y, rfl⟩
  · have hlast := List.append_inj_right' h rfl
    exact Or.inl ⟨rfl, (List.cons.inj hlast).1⟩
  · rw [List.concat_eq_append] at h ⊢
    have h' : log ++ [e] = (earlier ++ x :: later') ++ [y] := by
      rw [h, List.append_assoc, List.cons_append]
    obtain ⟨hlog, hlast⟩ := List.append_inj' h' rfl
    have heq : e = y := (List.cons.inj hlast).1
    exact Or.inr ⟨later', by rw [heq], hlog⟩

theorem lossNoticed_step (hb : InBounds s) (hl : LossNoticed s) (hg : SeenGuard s op)
    (hs : traceStep s op = some s') : LossNoticed s' := by
  intro earlier msg later hlog
  have hmove := traceStep_move hs
  have hsame (heq : s'.log = s.log) (hop : op ≠ .recount) :
      (freeBufs later).head? = some 0 ∨ freeBufs later = [] ∧ Noticed s' := by
    rcases hl earlier msg later (heq.symm.trans hlog) with hzero | ⟨hnone, hn⟩
    · exact Or.inl hzero
    · exact Or.inr ⟨hnone, noticed_step hn hmove hop⟩
  cases hmove with
  | drop m hdrop =>
      have hseen : ¬ Unseen s := hg ⟨m, rfl⟩
      rcases split_append_singleton hlog with ⟨rfl, -⟩ | ⟨later', rfl, hlog'⟩
      · exact Or.inr ⟨rfl, noticed_of_drops hdrop hseen⟩
      · have hfree : freeBufs (later' ++ [.dropped m]) = freeBufs later' := by
          rw [freeBufs_append]
          exact List.append_nil _
        rw [hfree]
        exact hl earlier msg later' hlog'
  | refuse m => exact hsame rfl (by simp)
  | send m hroom => exact hsame rfl (by simp)
  | count hr => exact hsame rfl (by simp)
  | take hr hm => exact hsame rfl (by simp)
  | @recount c m hr =>
      rcases split_append_singleton hlog with ⟨-, heq⟩ | ⟨later', rfl, hlog'⟩
      · cases heq
      refine Or.inl ?_
      rw [freeBufs_append]
      rcases hl earlier msg later' hlog' with hzero | ⟨hnone, hn⟩
      · rw [List.head?_append, hzero]
        rfl
      · -- this answer is the first one, and the queue was full at one of the counts
        rw [Noticed, hr] at hn
        have hzero := freeBuf_eq_zero (hb.count c (Or.inr ⟨m, hr⟩)) hb.queue hn
        rw [hnone, hzero]
        rfl

/-- Losses are signalled: in every run in which no message is lost between a count that has
found a free place and the taking of the message, every loss makes one of the next two
receive calls answer 0. -/
theorem lossSignalled_of_guarded (h : traceLts.Guarded SeenGuard s) : LossSignalled s.log := by
  have hinv : InBounds s ∧ LossNoticed s := by
    refine h.invariant (I := fun s => InBounds s ∧ LossNoticed s) ?_ fun s op s' hI hg hs => ?_
    · rintro s ⟨htrace, hqueue, hr, hlog⟩
      refine ⟨⟨htrace, hqueue, ?_⟩, fun earlier msg later heq => ?_⟩
      · rintro msgcount1 (heq | ⟨msg, heq⟩) <;> cases hr.symm.trans heq
      · rw [hlog] at heq
        exact absurd heq.symm (List.append_ne_nil_of_right_ne_nil _ (List.cons_ne_nil _ _))
    · exact ⟨inBounds_step hI.1 hs, lossNoticed_step hI.1 hI.2 hg hs⟩
  intro earlier msg later hlog htwo
  rcases hinv.2 earlier msg later hlog with hzero | ⟨hnone, -⟩
  · obtain ⟨rest, hrest⟩ := List.head?_eq_some_iff.mp hzero
    rw [hrest]
    exact List.mem_cons_self
  · rw [hnone] at htwo
    cases htwo

def emptyTrace : TraceState where
  buf := { rtdbTracebufsize := 2, rtdbTrace := true, messages := [] }
  receiver := .idle
  log := []

def aMsg (ts : Timestamp) : TraceMsg where
  oid := 1
  ts := ts
  event := .updated
  objSlot := 0
  histSlot := 0

instance (rtdbTracebufsize : Nat) : DecidablePred (Receiver.FoundFree rtdbTracebufsize) :=
  fun receiver => by cases receiver <;> unfold Receiver.FoundFree <;> infer_instance

instance (s : TraceState) : DecidablePred (SeenGuard s) := fun op => by
  unfold SeenGuard Unseen
  cases op with
  | send msg => exact decidable_of_iff (¬ _) ⟨fun hn _ => hn, fun hn => hn ⟨msg, rfl⟩⟩
  | count => exact isTrue fun ⟨_, h⟩ => by cases h
  | take => exact isTrue fun ⟨_, h⟩ => by cases h
  | recount => exact isTrue fun ⟨_, h⟩ => by cases h

/-- The queue fills up before the first receive call, and a message is lost. -/
theorem lossSignalled_of_guarded_full :
    ∃ s, traceLts.Guarded SeenGuard s ∧ LossSignalled s.log ∧
      s.log = [.dropped (aMsg 3), .received (aMsg 1) 0, .received (aMsg 2) 1] := by
  obtain ⟨s, hr, hp⟩ := traceLts.exists_of_execGuarded (G := SeenGuard)
    (g := fun s op => decide (SeenGuard s op)) (fun _ _ => of_decide_eq_true)
    [.send (aMsg 1), .send (aMsg 2), .send (aMsg 3), .count, .take, .recount,
      .count, .take, .recount]
    (fun s => decide
      (s.log = [.dropped (aMsg 3), .received (aMsg 1) 0, .received (aMsg 2) 1]))
    (s := emptyTrace) ⟨rfl, Nat.zero_le _, rfl, rfl⟩ (by decide +kernel)
  exact ⟨s, hr, lossSignalled_of_guarded hr, of_decide_eq_true hp⟩

/-- A message is lost while the first receive call has counted one message and is yet to
take it: no receive call answers 0. -/
theorem exists_not_lossSignalled : ∃ s, traceLts.Reachable s ∧ ¬ LossSignalled s.log := by
  obtain ⟨s, hr, hp⟩ := traceLts.exists_of_exec
    [.send (aMsg 1), .count, .send (aMsg 2), .send (aMsg 3), .take, .recount,
      .count, .take, .recount]
    (fun s => decide
      (s.log = [] ++ .dropped (aMsg 3) :: [.received (aMsg 1) 1, .received (aMsg 2) 1]))
    (s := emptyTrace) ⟨rfl, Nat.zero_le _, rfl, rfl⟩ (by decide +kernel)
  exact ⟨s, hr, fun hsig => absurd (hsig _ _ _ (of_decide_eq_true hp) (by decide)) (by decide)⟩

end KogmoRtdb
