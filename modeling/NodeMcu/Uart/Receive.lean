import Mathlib.Tactic.SplitIfs
import NodeMcu.Lib.Ring
import NodeMcu.Lib.Run

namespace NodeMcu.Uart.Receive

open NodeMcu.Lib.Ring NodeMcu.Lib.Run

/-! ## The receive buffer -/

def rxBuffSize : Nat := 0x100

/-- Positions count from `pRcvMsgBuff` on. -/
structure RcvMsgBuff where
  bytes : Nat → UInt8
  writePos : Nat
  readPos : Nat

def advance (pos : Nat) : Nat := if pos = rxBuffSize then 0 else pos + 1

/-- One round of the interrupt handler's loop. The oldest byte gives way to one too many. -/
def RcvMsgBuff.receive (b : RcvMsgBuff) (rcvChar : UInt8) : RcvMsgBuff :=
  let writePos := advance b.writePos
  { bytes := Function.update b.bytes b.writePos rcvChar
    writePos
    readPos := if writePos = b.readPos then advance b.readPos else b.readPos }

def RcvMsgBuff.isEmpty (b : RcvMsgBuff) : Bool := b.writePos = b.readPos

/-- What `uart_getc` does with the interrupts locked. -/
def RcvMsgBuff.take (b : RcvMsgBuff) : UInt8 × RcvMsgBuff :=
  (b.bytes b.readPos, { b with readPos := advance b.readPos })

/-! ## The interrupt and the task that reads -/

/-- Where the task stands: it waits to be posted, it is about to see whether there is a byte, or it
has seen that there is one. -/
inductive Reader
  | waiting | looping | checked
  deriving DecidableEq

/-- The buffer, the posts that are not yet taken, the reader, all bytes that came in, and those that
`uart_getc` has returned. -/
structure State where
  rcvBuff : RcvMsgBuff
  posts : Nat
  reader : Reader
  received : List UInt8
  returned : List UInt8

/-- An interrupt brings the bytes of the hardware queue, and its post is taken or not. The task is
dispatched, and makes its steps; an interrupt may come between any two of them. -/
inductive Event
  | interrupt (fifo : List UInt8) (accepted : Bool)
  | dispatch
  | check
  | take

def step (s : State) : Event → State
  | .interrupt fifo accepted =>
    { s with
      rcvBuff := fifo.foldl RcvMsgBuff.receive s.rcvBuff
      received := s.received ++ fifo
      posts := if fifo ≠ [] ∧ accepted then s.posts + 1 else s.posts }
  | .dispatch => { s with posts := s.posts - 1, reader := .looping }
  | .check => { s with reader := if s.rcvBuff.isEmpty then .waiting else .checked }
  | .take =>
    { s with
      rcvBuff := s.rcvBuff.take.2
      returned := s.returned ++ [s.rcvBuff.take.1]
      reader := .looping }

/-- The task makes its steps in turn, and it is dispatched when it has been posted. A post is
refused only where one is still to be taken. -/
def Possible (s : State) : Event → Prop
  | .interrupt _ accepted => accepted = true ∨ 0 < s.posts
  | .dispatch => s.reader = .waiting ∧ 0 < s.posts
  | .check => s.reader = .looping
  | .take => s.reader = .checked

instance (s : State) (e : Event) : Decidable (Possible s e) :=
  match e with
  | .interrupt _ accepted => inferInstanceAs (Decidable (accepted = true ∨ 0 < s.posts))
  | .dispatch => inferInstanceAs (Decidable (s.reader = .waiting ∧ 0 < s.posts))
  | .check => inferInstanceAs (Decidable (s.reader = .looping))
  | .take => inferInstanceAs (Decidable (s.reader = .checked))

def start (bytes : Nat → UInt8) : State := ⟨⟨bytes, 0, 0⟩, 0, .waiting, [], []⟩

/-! ## What the buffer holds -/

def RcvMsgBuff.count (b : RcvMsgBuff) : Nat := (b.writePos + 257 - b.readPos) % 257

/-- The bytes that are waiting, oldest first. -/
def RcvMsgBuff.unread (b : RcvMsgBuff) : List UInt8 :=
  contents 0 257 b.bytes b.readPos b.count

structure RcvMsgBuff.Valid (b : RcvMsgBuff) : Prop where
  write_le : b.writePos ≤ rxBuffSize
  read_le : b.readPos ≤ rxBuffSize

/-- The last ones of a list. -/
def latest (n : Nat) (xs : List UInt8) : List UInt8 := xs.drop (xs.length - n)

theorem latest_of_le {n : Nat} {xs : List UInt8} (h : xs.length ≤ n) : latest n xs = xs := by
  rw [latest, Nat.sub_eq_zero_of_le h, List.drop_zero]

theorem latest_latest_append (n : Nat) (xs ys : List UInt8) :
    latest n (latest n xs ++ ys) = latest n (xs ++ ys) := by
  have hxs : (latest n xs).length = xs.length - (xs.length - n) := List.length_drop
  simp only [latest, List.length_append, List.length_drop, List.drop_append, List.drop_drop]
  congr 2 <;> omega

theorem latest_suffix (n : Nat) (xs : List UInt8) : latest n xs <:+ xs := List.drop_suffix _ _

section Buffer

variable {b : RcvMsgBuff}

theorem advance_eq {pos : Nat} (h : pos ≤ rxBuffSize) : advance pos = next 0 257 pos := by
  rw [rxBuffSize] at h
  rw [advance, next, rxBuffSize]
  split_ifs <;> omega

theorem advance_le {pos : Nat} (h : pos ≤ rxBuffSize) : advance pos ≤ rxBuffSize := by
  rw [advance]
  split_ifs
  · exact Nat.zero_le _
  · omega

theorem RcvMsgBuff.Valid.count_le (_ : b.Valid) : b.count ≤ rxBuffSize := by
  rw [count, rxBuffSize]
  omega

@[simp] theorem unread_length : b.unread.length = b.count := contents_length ..

theorem RcvMsgBuff.Valid.writePos_eq (h : b.Valid) : b.writePos = slot 0 257 b.readPos b.count := by
  have hwrite := h.write_le
  have hread := h.read_le
  rw [rxBuffSize] at hwrite hread
  rw [slot, RcvMsgBuff.count]
  split_ifs <;> omega

theorem RcvMsgBuff.Valid.receive (h : b.Valid) (c : UInt8) : (b.receive c).Valid := by
  constructor
  · exact advance_le h.write_le
  · rw [RcvMsgBuff.receive]
    dsimp only
    split_ifs
    · exact advance_le h.read_le
    · exact h.read_le

theorem count_of_slot {n : Nat} (hread : b.readPos ≤ rxBuffSize) (hn : n ≤ rxBuffSize)
    (h : b.writePos = slot 0 257 b.readPos n) : b.count = n := by
  rw [rxBuffSize] at hread hn
  rw [slot] at h
  rw [RcvMsgBuff.count]
  split_ifs at h <;> omega

/-- A byte comes behind the others, and there are never more than fit. -/
theorem RcvMsgBuff.Valid.unread_receive (h : b.Valid) (c : UInt8) :
    (b.receive c).unread = latest rxBuffSize (b.unread ++ [c]) := by
  have hcount := h.count_le
  have hread : b.readPos < 257 := Nat.lt_succ_of_le h.read_le
  have hroom : b.count < 257 - 0 := Nat.lt_succ_of_le hcount
  have hwritten : contents 0 257 (b.receive c).bytes b.readPos (b.count + 1) = b.unread ++ [c] := by
    rw [RcvMsgBuff.receive, h.writePos_eq]
    exact contents_update b.bytes c hroom
  have hwrite : (b.receive c).writePos = slot 0 257 b.readPos (b.count + 1) := by
    rw [RcvMsgBuff.receive]
    dsimp only
    rw [advance_eq h.write_le, h.writePos_eq, next_slot (Nat.zero_le _) hread hroom]
  have hend : (b.receive c).writePos = b.readPos ↔ b.count = rxBuffSize := by
    rw [hwrite, slot_eq_start (Nat.zero_le _) hread (by omega), rxBuffSize]
    omega
  obtain hless | hfull := Nat.lt_or_eq_of_le hcount
  · have hpos : (b.receive c).readPos = b.readPos := if_neg (mt hend.mp (by omega))
    have hnew : (b.receive c).count = b.count + 1 :=
      count_of_slot (h.receive c).read_le hless (hpos ▸ hwrite)
    rw [RcvMsgBuff.unread, hnew, hpos, hwritten, latest_of_le]
    rw [List.length_append, unread_length]
    exact hless
  · have hpos : (b.receive c).readPos = next 0 257 b.readPos := by
      rw [← advance_eq h.read_le]
      exact if_pos (hend.mpr hfull)
    have hnew : (b.receive c).count = rxBuffSize := by
      refine count_of_slot (h.receive c).read_le (Nat.le_refl _) ?_
      rw [hpos, slot_next (Nat.zero_le _) hread (by decide), hwrite, hfull]
    rw [contents_cons _ (Nat.zero_le _) hread hroom] at hwritten
    rw [RcvMsgBuff.unread, hnew, hpos, ← hwritten, hfull, latest, List.length_cons,
      contents_length, Nat.add_sub_cancel_left]
    rfl

theorem RcvMsgBuff.Valid.unread_take (h : b.Valid) (hne : b.unread ≠ []) :
    b.unread = b.take.1 :: b.take.2.unread := by
  have hread : b.readPos < 257 := Nat.lt_succ_of_le h.read_le
  have hcount := h.count_le
  have hpos : 0 < b.count := unread_length (b := b) ▸ List.length_pos_iff.mpr hne
  obtain ⟨n, hn⟩ := Nat.exists_eq_succ_of_ne_zero (Nat.ne_of_gt hpos)
  have hroom : n < 257 - 0 := by
    rw [rxBuffSize] at hcount
    omega
  have hnew : b.take.2.count = n := by
    refine count_of_slot (advance_le h.read_le) (by omega) ?_
    change b.writePos = slot 0 257 (advance b.readPos) n
    rw [advance_eq h.read_le, slot_next (Nat.zero_le _) hread hroom, h.writePos_eq, hn]
  rw [RcvMsgBuff.unread, hn, contents_cons _ (Nat.zero_le _) hread hroom, RcvMsgBuff.unread, hnew,
    ← advance_eq h.read_le]
  rfl

theorem isEmpty_iff (h : b.Valid) : b.isEmpty = true ↔ b.unread = [] := by
  have hwrite := h.write_le
  have hread := h.read_le
  rw [rxBuffSize] at hwrite hread
  rw [← List.length_eq_zero_iff, unread_length, RcvMsgBuff.isEmpty, RcvMsgBuff.count,
    decide_eq_true_iff]
  omega

theorem RcvMsgBuff.Valid.take (h : b.Valid) : b.take.2.Valid :=
  ⟨h.write_le, advance_le h.read_le⟩

theorem RcvMsgBuff.Valid.interrupt (h : b.Valid) (fifo : List UInt8) :
    (fifo.foldl RcvMsgBuff.receive b).Valid ∧
      (fifo.foldl RcvMsgBuff.receive b).unread = latest rxBuffSize (b.unread ++ fifo) := by
  induction fifo generalizing b with
  | nil =>
    rw [List.append_nil, latest_of_le (unread_length ▸ h.count_le)]
    exact ⟨h, rfl⟩
  | cons c fifo ih =>
    obtain ⟨hvalid, hunread⟩ := ih (h.receive c)
    rw [List.foldl_cons, hunread, h.unread_receive, latest_latest_append, List.append_assoc]
    exact ⟨hvalid, rfl⟩

end Buffer

/-! ## Every run -/

/-- What was received is what went before, of which some was returned, and what waits. The reader
takes no byte from an empty buffer, and where bytes wait it is on its way. -/
structure Sound (s : State) : Prop where
  valid : s.rcvBuff.Valid
  order : ∃ before, s.received = before ++ s.rcvBuff.unread ∧ s.returned.Sublist before
  checked : s.reader = .checked → s.rcvBuff.unread ≠ []
  wakes : s.rcvBuff.unread ≠ [] → 0 < s.posts ∨ s.reader ≠ .waiting

theorem unread_start (bytes : Nat → UInt8) : (start bytes).rcvBuff.unread = [] :=
  (isEmpty_iff ⟨Nat.zero_le _, Nat.zero_le _⟩).mp rfl

theorem sound_start (bytes : Nat → UInt8) : Sound (start bytes) where
  valid := ⟨Nat.zero_le _, Nat.zero_le _⟩
  order := ⟨[], (unread_start bytes).symm, .slnil⟩
  checked := nofun
  wakes h := absurd (unread_start bytes) h

theorem latest_ne_nil {n : Nat} {xs : List UInt8} (hn : 0 < n) (h : xs ≠ []) :
    latest n xs ≠ [] := by
  have hpos := List.length_pos_iff.mpr h
  rw [latest, ne_eq, List.drop_eq_nil_iff]
  omega

variable {s : State} {e : Event}

theorem Sound.interrupt (h : Sound s) {fifo : List UInt8} {accepted : Bool}
    (he : accepted = true ∨ 0 < s.posts) : Sound (step s (.interrupt fifo accepted)) := by
  obtain ⟨hvalid, hunread⟩ := h.valid.interrupt fifo
  obtain ⟨before, hreceived, hreturned⟩ := h.order
  obtain ⟨lost, hlost⟩ := latest_suffix rxBuffSize (s.rcvBuff.unread ++ fifo)
  have hposts : s.posts ≤ (step s (.interrupt fifo accepted)).posts := by
    rw [step]
    dsimp only
    split_ifs <;> omega
  refine ⟨hvalid, ⟨before ++ lost, ?_, hreturned.trans (List.sublist_append_left _ _)⟩, ?_, ?_⟩
  · rw [step, hunread, List.append_assoc, hlost, hreceived, List.append_assoc]
  · intro hchecked
    rw [step, hunread]
    exact latest_ne_nil (by decide) (List.append_ne_nil_of_left_ne_nil (h.checked hchecked) _)
  · intro hne
    by_cases hold : s.rcvBuff.unread = []
    · have hfifo : fifo ≠ [] := by
        rintro rfl
        exact hne (by rw [step, hunread, hold]; rfl)
      obtain haccepted | hpending := he
      · refine .inl ?_
        rw [step]
        dsimp only
        rw [if_pos ⟨hfifo, haccepted⟩]
        omega
      · exact .inl (Nat.lt_of_lt_of_le hpending hposts)
    · exact (h.wakes hold).imp_left (Nat.lt_of_lt_of_le · hposts)

theorem Sound.step (h : Sound s) (he : Possible s e) : Sound (step s e) := by
  cases e with
  | interrupt fifo accepted => exact h.interrupt he
  | dispatch => exact ⟨h.valid, h.order, nofun, fun _ => .inr nofun⟩
  | check =>
    have hempty := isEmpty_iff h.valid
    refine ⟨h.valid, h.order, ?_, ?_⟩
    · intro hchecked hnil
      rw [Receive.step, hempty.mpr hnil] at hchecked
      cases hchecked
    · intro hne
      rw [Receive.step, if_neg (mt hempty.mp hne)]
      exact .inr nofun
  | take =>
    have hunread := h.valid.unread_take (h.checked he)
    obtain ⟨before, hreceived, hreturned⟩ := h.order
    refine ⟨h.valid.take, ⟨before ++ [s.rcvBuff.take.1], ?_, hreturned.append (.refl _)⟩, nofun,
      fun _ => .inr nofun⟩
    rw [Receive.step, List.append_assoc, List.singleton_append, ← hunread]
    exact hreceived

/-- No interrupt brings more than there is room for. -/
def Fits (s : State) : Event → Prop
  | .interrupt fifo _ => s.rcvBuff.unread.length + fifo.length ≤ rxBuffSize
  | _ => True

theorem step_whole (h : Sound s) (hwhole : s.returned ++ s.rcvBuff.unread = s.received)
    (he : Possible s e) (hfits : Fits s e) :
    (step s e).returned ++ (step s e).rcvBuff.unread = (step s e).received := by
  cases e with
  | interrupt fifo accepted =>
    have hroom : (s.rcvBuff.unread ++ fifo).length ≤ rxBuffSize := by
      rw [List.length_append]
      exact hfits
    rw [step, (h.valid.interrupt fifo).2, latest_of_le hroom, ← List.append_assoc, hwhole]
  | dispatch | check => exact hwhole
  | take =>
    rw [step, List.append_assoc, List.singleton_append, ← h.valid.unread_take (h.checked he)]
    exact hwhole

/-- A byte comes in while the task is about to take another. -/
def twoInterrupts : List Event :=
  [.interrupt [0x61, 0x62] true, .dispatch, .check, .interrupt [0x63] true, .take, .check, .take]

end NodeMcu.Uart.Receive
