import Mathlib.Order.Fin.Basic
import NodeMcu.Rotary.Driver

namespace NodeMcu.Rotary.Queue

open NodeMcu.Lib.Run NodeMcu.Lib.Window NodeMcu.Rotary.Driver

/-- The events of a channel since it was set up: those that were queued, the last one as it was
last written, and those that were returned. -/
structure History where
  queued : List RotaryEvent
  returned : List RotaryEvent

def record (h : History) (e : RotaryEvent) : Written → History
  | .unchanged => h
  | .queued => { h with queued := h.queued ++ [e] }
  | .replaced => { h with queued := h.queued.dropLast ++ [e] }

inductive Event
  | setup (channel : Nat) (pins : Pins) (tasknumber : Nat) (allocOk : Bool)
  | close (channel : Nat)
  | interrupt (retGpioStatus : UInt32) (intr : Interrupt)
  | getevent (channel : Nat)
  | task

structure Tracked where
  state : State
  history : Channel → History

/-- The histories behind an event. -/
def track (t : Tracked) (i : Channel) : Event → History
  | .setup channel _ _ _ | .close channel =>
    if channelOf channel = some i then ⟨[], []⟩ else t.history i
  | .interrupt _ intr =>
    match t.state.data i with
    | none => t.history i
    | some d =>
      if intr.gpioStatus &&& d.pinMask = 0 then t.history i
      else
        let r := intr.readings i
        record (t.history i) ⟨newStatus d r, r.timeUs⟩ (writtenAs d (newStatus d r))
  | .getevent channel =>
    if channelOf channel = some i then
      match (rotaryGetevent channel t.state).1 with
      | (true, some e) => { t.history i with returned := (t.history i).returned ++ [e] }
      | _ => t.history i
    else t.history i
  | .task => t.history i

def perform (s : State) : Event → State
  | .setup channel pins tasknumber allocOk => (rotarySetup channel pins tasknumber allocOk s).2
  | .close channel => (rotaryClose channel s).2
  | .interrupt retGpioStatus intr => (rotaryInterrupt retGpioStatus intr s).1
  | .getevent channel => (rotaryGetevent channel s).2
  | .task => { s with taskQueued := false }

def step (t : Tracked) (e : Event) : Tracked := ⟨perform t.state e, fun i => track t i e⟩

def start : Tracked := ⟨⟨fun _ => none, false⟩, fun _ => ⟨[], []⟩⟩

/-- The events that were not read yet. -/
def unread (d : Data) : List RotaryEvent :=
  window queueSize.toNat d.queue d.readOffset.toNat d.writeOffset.toNat

/-- What the queue of a channel is for. -/
structure Faithful (d : Data) (h : History) : Prop where
  le : d.readOffset ≤ d.writeOffset
  room : d.writeOffset - d.readOffset ≤ queueSize
  order : h.returned ++ unread d = h.queued
  drained : d.readOffset = d.writeOffset → ∀ e, h.returned.getLast? = some e →
    e.pos = (getLastStatus d).pos

def Law (t : Tracked) : Prop := ∀ i d, t.state.data i = some d → Faithful d (t.history i)

/-- The offset from which on the sum in the test for free space is zero or little more. -/
def lastOffset : UInt32 := 0xFFFFFFF9

/-- An interrupt that changes the status of a channel finds events in its queue, or an offset at
which the test for free space does not overflow. -/
def Harmless (t : Tracked) : Event → Prop
  | .interrupt _ intr => ∀ i d, t.state.data i = some d → intr.gpioStatus &&& d.pinMask ≠ 0 →
      newStatus d (intr.readings i) ≠ (getLastStatus d).pos → d.readOffset = d.writeOffset →
      d.readOffset < lastOffset
  | _ => True

section channel

/-- What the offsets, the queue and the history of a channel have to do with each other. -/
structure Inv (d : Data) (h : History) : Prop where
  length : h.queued.length = d.writeOffset.toNat
  le : d.readOffset.toNat ≤ d.writeOffset.toNat
  room : d.writeOffset.toNat ≤ d.readOffset.toNat + 7
  returned : h.returned = h.queued.take d.readOffset.toNat
  shows : Shows 8 d.queue h.queued (min d.readOffset.toNat (d.writeOffset.toNat - 1))

theorem indexOf_eq (offset : UInt32) : indexOf offset = offset.toNat % 8 := by
  rw [indexOf, UInt32.toNat_and]
  exact Nat.and_two_pow_sub_one_eq_mod offset.toNat 3

theorem toNat_pred (offset : UInt32) (h : 0 < offset.toNat) :
    (offset - 1).toNat = offset.toNat - 1 := by
  have hle : (1 : UInt32) ≤ offset := UInt32.le_iff_toNat_le.mpr h
  exact UInt32.toNat_sub_of_le _ _ hle

theorem toNat_succ (offset : UInt32) (h : offset.toNat + 1 < 2 ^ 32) :
    (offset + 1).toNat = offset.toNat + 1 := by
  rw [UInt32.toNat_add]
  exact Nat.mod_eq_of_lt h

theorem hasQueuedData_iff (d : Data) :
    hasQueuedData d = true ↔ d.readOffset.toNat < d.writeOffset.toNat := by
  rw [hasQueuedData, decide_eq_true_iff, UInt32.lt_iff_toNat_lt]

/-- There is space while fewer than seven events are unread and the sum does not overflow. -/
theorem hasQueueSpace_iff (d : Data) (h : d.readOffset.toNat ≤ d.writeOffset.toNat) :
    hasQueueSpace d = true ↔
      d.writeOffset.toNat < d.readOffset.toNat + 7 ∧ d.readOffset.toNat + 7 < 2 ^ 32 := by
  have hsum : (d.readOffset + queueSize - 1).toNat = (d.readOffset.toNat + 7) % 2 ^ 32 := by
    have hsize : queueSize.toNat = 8 := rfl
    have hone : (1 : UInt32).toNat = 1 := rfl
    rw [UInt32.toNat_sub, UInt32.toNat_add, hsize, hone]
    omega
  have hlt := d.readOffset.toNat_lt
  rw [hasQueueSpace, decide_eq_true_iff, gt_iff_lt, UInt32.lt_iff_toNat_lt, hsum]
  omega

/-- What is done with a status, and when. -/
theorem writtenAs_cases (d : Data) (x : UInt32) :
    (writtenAs d x = .unchanged ∧ x = (getLastStatus d).pos) ∨
    (writtenAs d x = .queued ∧ x ≠ (getLastStatus d).pos ∧ hasQueueSpace d = true) ∨
    (writtenAs d x = .replaced ∧ x ≠ (getLastStatus d).pos ∧
      (hasQueuedData d = true ∨ hasQueueSpace d = false)) := by
  unfold writtenAs
  dsimp only
  split
  · next hne =>
    split
    · split
      · next hspace => exact .inr (.inl ⟨rfl, Ne.symm hne, hspace⟩)
      · next hspace => exact .inr (.inr ⟨rfl, Ne.symm hne, .inr (by simpa using hspace)⟩)
    · next hcond =>
      refine .inr (.inr ⟨rfl, Ne.symm hne, .inl ?_⟩)
      simp only [Bool.or_eq_true, not_or] at hcond
      simpa using hcond.1.1
  · next heq => exact .inl ⟨rfl, (not_not.mp heq).symm⟩

theorem inv_new (pins : Pins) (tasknumber : Nat) : Inv (newData pins tasknumber) ⟨[], []⟩ :=
  ⟨rfl, Nat.le_refl _, Nat.zero_le _, rfl, shows_nil 8 _⟩

theorem unread_eq (d : Data) (h : History) (hinv : Inv d h) :
    unread d = h.queued.drop d.readOffset.toNat := by
  by_cases hlt : d.readOffset.toNat < d.writeOffset.toNat
  · have hmin : min d.readOffset.toNat (d.writeOffset.toNat - 1) = d.readOffset.toNat := by omega
    have hshows := hinv.shows
    rw [hmin] at hshows
    rw [unread, ← hinv.length]
    exact window_eq_drop hshows
  · have hle := hinv.le
    have heq : d.writeOffset.toNat = d.readOffset.toNat := by omega
    have hlen := hinv.length
    rw [unread, heq, window_empty, List.drop_eq_nil_of_le (by omega)]

/-- The last status is the last queued event. -/
theorem getLastStatus_eq (d : Data) (h : History) (hinv : Inv d h)
    (hpos : 0 < d.writeOffset.toNat) :
    h.queued.getLast? = some (getLastStatus d) := by
  have hlen := hinv.length
  have hlast := hinv.shows (d.writeOffset.toNat - 1) (Nat.min_le_right _ _) (by omega)
  rw [List.getLast?_eq_getElem?, hlen, hlast, getLastStatus, indexOf_eq, toNat_pred _ hpos]

theorem faithful_of_inv (d : Data) (h : History) (hinv : Inv d h) : Faithful d h := by
  have hle := UInt32.le_iff_toNat_le.mpr hinv.le
  refine ⟨hle, ?_, ?_, ?_⟩
  · rw [UInt32.le_iff_toNat_le, UInt32.toNat_sub_of_le _ _ hle]
    have hroom := hinv.room
    have : queueSize.toNat = 8 := rfl
    omega
  · rw [unread_eq d h hinv, hinv.returned, List.take_append_drop]
  · intro heq e he
    have hlen := hinv.length
    have hall : h.returned = h.queued := by
      rw [hinv.returned, List.take_of_length_le]
      rw [hlen, heq]
    rw [hall] at he
    have hpos : 0 < d.writeOffset.toNat := by
      rw [← hlen]
      by_contra h0
      rw [List.length_eq_zero_iff.mp (Nat.eq_zero_of_not_pos h0)] at he
      cases he
    rw [getLastStatus_eq d h hinv hpos] at he
    rw [Option.some.inj he]

theorem inv_queued (d : Data) (h : History) (e : RotaryEvent) (hinv : Inv d h)
    (hspace : hasQueueSpace d = true) : Inv (queueStatus d e) (record h e .queued) := by
  obtain ⟨hroom, hover⟩ := (hasQueueSpace_iff d hinv.le).mp hspace
  have hle := hinv.le
  have hlen := hinv.length
  have hw : (d.writeOffset + 1).toNat = d.writeOffset.toNat + 1 := toNat_succ _ (by omega)
  refine ⟨?_, ?_, ?_, ?_, ?_⟩
  · change (h.queued ++ [e]).length = (d.writeOffset + 1).toNat
    rw [List.length_append, hlen, hw, List.length_singleton]
  · change d.readOffset.toNat ≤ (d.writeOffset + 1).toNat
    omega
  · change (d.writeOffset + 1).toNat ≤ d.readOffset.toNat + 7
    omega
  · change h.returned = (h.queued ++ [e]).take d.readOffset.toNat
    rw [List.take_append_of_le_length (by omega)]
    exact hinv.returned
  · change Shows 8 (Function.update d.queue (indexOf d.writeOffset) e) (h.queued ++ [e])
      (min d.readOffset.toNat ((d.writeOffset + 1).toNat - 1))
    rw [indexOf_eq, ← hlen, hw]
    apply shows_append hinv.shows
    · omega
    · omega

/-- Writing the last event again is right as long as it is unread. -/
theorem inv_replaced (d : Data) (h : History) (e : RotaryEvent) (hinv : Inv d h)
    (hdata : d.readOffset.toNat < d.writeOffset.toNat) :
    Inv (replaceStatus d e) (record h e .replaced) := by
  have hroom := hinv.room
  have hlen := hinv.length
  have hne : h.queued ≠ [] := by
    intro hnil
    rw [hnil, List.length_nil] at hlen
    omega
  refine ⟨?_, hinv.le, hroom, ?_, ?_⟩
  · change (h.queued.dropLast ++ [e]).length = d.writeOffset.toNat
    rw [List.length_append, List.length_dropLast, List.length_singleton]
    omega
  · change h.returned = (h.queued.dropLast ++ [e]).take d.readOffset.toNat
    rw [List.take_append_of_le_length (by rw [List.length_dropLast]; omega),
      List.dropLast_eq_take, List.take_take, hinv.returned]
    congr 1
    omega
  · change Shows 8 (Function.update d.queue (indexOf (d.writeOffset - 1)) e)
      (h.queued.dropLast ++ [e]) (min d.readOffset.toNat (d.writeOffset.toNat - 1))
    rw [indexOf_eq, toNat_pred _ (by omega), ← hlen]
    apply shows_replace
    · rw [hlen]
      exact hinv.shows
    · exact hne
    · omega

theorem inv_getevent (d : Data) (h : History) (hinv : Inv d h) (hdata : hasQueuedData d = true) :
    Inv { d with readOffset := d.readOffset + 1 }
      { h with returned := h.returned ++ [getReadStatus d] } := by
  have hlt := (hasQueuedData_iff d).mp hdata
  have hroom := hinv.room
  have hlen := hinv.length
  have hw := d.writeOffset.toNat_lt
  have hr : (d.readOffset + 1).toNat = d.readOffset.toNat + 1 := toNat_succ _ (by omega)
  refine ⟨hlen, ?_, ?_, ?_, ?_⟩
  · change (d.readOffset + 1).toNat ≤ d.writeOffset.toNat
    omega
  · change d.writeOffset.toNat ≤ (d.readOffset + 1).toNat + 7
    omega
  · change h.returned ++ [getReadStatus d] = h.queued.take (d.readOffset + 1).toNat
    have hread := hinv.shows d.readOffset.toNat (Nat.min_le_left _ _) (by omega)
    rw [hr, List.take_add_one, hread, hinv.returned, getReadStatus, indexOf_eq]
    rfl
  · change Shows 8 d.queue h.queued (min (d.readOffset + 1).toNat (d.writeOffset.toNat - 1))
    apply shows_mono hinv.shows
    omega

/-- The pass of the handler for a channel, with the condition of `Harmless`. -/
theorem inv_interrupt (d : Data) (h : History) (r : Readings) (hinv : Inv d h)
    (hok : newStatus d r ≠ (getLastStatus d).pos → d.readOffset = d.writeOffset →
      d.readOffset < lastOffset) :
    Inv (interruptChannel d r)
      (record h ⟨newStatus d r, r.timeUs⟩ (writtenAs d (newStatus d r))) := by
  have hinv' : Inv { d with lastPressChangeTime := (debounce d r).2 } h :=
    ⟨hinv.length, hinv.le, hinv.room, hinv.returned, hinv.shows⟩
  obtain ⟨hw, -⟩ | ⟨hw, -, hspace⟩ | ⟨hw, hne, hor⟩ := writtenAs_cases d (newStatus d r)
  · rw [interruptChannel, hw]
    exact hinv'
  · rw [interruptChannel, hw]
    exact inv_queued _ h _ hinv' hspace
  · rw [interruptChannel, hw]
    apply inv_replaced _ h _ hinv'
    change d.readOffset.toNat < d.writeOffset.toNat
    by_contra hge
    have hle := hinv.le
    have heq : d.readOffset = d.writeOffset := UInt32.toNat_inj.mp (by omega)
    have hlt := UInt32.lt_iff_toNat_lt.mp (hok hne heq)
    have hlast : lastOffset.toNat = 2 ^ 32 - 7 := rfl
    obtain hdata | hspace := hor
    · exact hge ((hasQueuedData_iff d).mp hdata)
    · have hfree : hasQueueSpace d = true := (hasQueueSpace_iff d hle).mpr ⟨by omega, by omega⟩
      rw [hfree] at hspace
      cases hspace

/-- A change that finds the queue empty at such an offset goes to an event that was returned. -/
theorem interrupt_not_faithful (d : Data) (h : History) (r : Readings) (hinv : Inv d h)
    (hne : newStatus d r ≠ (getLastStatus d).pos) (heq : d.readOffset = d.writeOffset)
    (hlast : ¬ d.readOffset < lastOffset) :
    ¬ Faithful (interruptChannel d r)
      (record h ⟨newStatus d r, r.timeUs⟩ (writtenAs d (newStatus d r))) := by
  have hlen := hinv.length
  have hoffset : 2 ^ 32 - 7 ≤ d.readOffset.toNat := by
    have : lastOffset.toNat = 2 ^ 32 - 7 := rfl
    rw [UInt32.lt_iff_toNat_lt] at hlast
    omega
  have hspace : ¬ hasQueueSpace d = true := by
    rw [hasQueueSpace_iff d hinv.le]
    omega
  have hw : writtenAs d (newStatus d r) = .replaced := by
    obtain ⟨-, hsame⟩ | ⟨-, -, hfree⟩ | ⟨hw, -⟩ := writtenAs_cases d (newStatus d r)
    · exact absurd hsame hne
    · exact absurd hfree hspace
    · exact hw
  intro hfaithful
  have horder := hfaithful.order
  rw [interruptChannel, hw] at horder
  have hunread : unread (write { d with lastPressChangeTime := (debounce d r).2 }
      ⟨newStatus d r, r.timeUs⟩ .replaced) = [] := by
    change window 8 _ d.readOffset.toNat d.writeOffset.toNat = []
    rw [heq, window_empty]
  have hreturned : h.returned = h.queued := by
    rw [hinv.returned, List.take_of_length_le]
    rw [hlen, heq]
  rw [hunread, List.append_nil] at horder
  change h.returned = h.queued.dropLast ++ [⟨newStatus d r, r.timeUs⟩] at horder
  have hlastEvent := getLastStatus_eq d h hinv (by rw [← heq]; omega)
  rw [← hreturned, horder, List.getLast?_concat] at hlastEvent
  exact hne (congrArg RotaryEvent.pos (Option.some.inj hlastEvent))

end channel

section system

/-- What an interrupt makes of a channel. -/
def interrupted (intr : Interrupt) (i : Channel) (d : Data) : Data :=
  if intr.gpioStatus &&& d.pinMask = 0 then d else interruptChannel d (intr.readings i)

/-- The passes of the handler do not touch each other's channels. -/
theorem interruptLoop_data (intr : Interrupt) (is : List Channel) (hnodup : is.Nodup)
    (s : State × UInt32) (i : Channel) :
    (interruptLoop intr is s).1.data i =
      if i ∈ is then (s.1.data i).map (interrupted intr i) else s.1.data i := by
  induction is generalizing s with
  | nil => rfl
  | cons j is ih =>
    obtain ⟨hj, hrest⟩ := List.nodup_cons.mp hnodup
    have hskip : ∀ s' : State × UInt32, (∀ k, k ≠ j → s'.1.data k = s.1.data k) →
        s'.1.data j = (s.1.data j).map (interrupted intr j) →
        (interruptLoop intr is s').1.data i =
          if i ∈ j :: is then (s.1.data i).map (interrupted intr i) else s.1.data i := by
      intro s' hother hself
      rw [ih hrest s']
      by_cases hij : i = j
      · subst hij
        rw [if_neg hj, hself, if_pos List.mem_cons_self]
      · have hmem : i ∈ j :: is ↔ i ∈ is := List.mem_cons.trans (or_iff_right hij)
        rw [hother i hij]
        simp only [hmem]
    rw [interruptLoop]
    cases hd : s.1.data j with
    | none =>
      apply hskip s (fun _ _ => rfl)
      rw [hd]
      rfl
    | some d =>
      dsimp only
      split
      · next hmask =>
        apply hskip s (fun _ _ => rfl)
        rw [hd, Option.map_some, interrupted, if_pos hmask]
      · next hmask =>
        apply hskip
        · intro k hk
          exact Function.update_of_ne hk _ _
        · dsimp only
          rw [Function.update_self, hd, Option.map_some, interrupted, if_neg hmask]

theorem rotaryInterrupt_data (retGpioStatus : UInt32) (intr : Interrupt) (s : State)
    (i : Channel) :
    (rotaryInterrupt retGpioStatus intr s).1.data i = (s.data i).map (interrupted intr i) := by
  rw [rotaryInterrupt, interruptLoop_data intr _ (List.nodup_finRange _),
    if_pos (List.mem_finRange i)]

def SystemInv (t : Tracked) : Prop := ∀ i d, t.state.data i = some d → Inv d (t.history i)

theorem rotaryClose_data (channel : Nat) (s : State) (i : Channel) :
    (rotaryClose channel s).2.data i =
      if channelOf channel = some i then none else s.data i := by
  unfold rotaryClose
  cases hc : channelOf channel with
  | none => rfl
  | some j =>
    dsimp only
    by_cases hij : i = j
    · rw [hij, Function.update_self, if_pos rfl]
    · rw [Function.update_of_ne hij, if_neg fun h => hij (Option.some.inj h).symm]

/-- A set up channel starts afresh or is gone, the others stay. -/
theorem rotarySetup_data (channel : Nat) (pins : Pins) (tasknumber : Nat) (allocOk : Bool)
    (s : State) (i : Channel) :
    (rotarySetup channel pins tasknumber allocOk s).2.data i =
      if channelOf channel = some i then
        (if allocOk then some (newData pins tasknumber) else none)
      else s.data i := by
  have hclose := rotaryClose_data channel s i
  unfold rotarySetup
  cases hc : channelOf channel with
  | none => rfl
  | some j =>
    rw [hc] at hclose
    dsimp only
    cases allocOk with
    | false =>
      rw [if_neg Bool.false_ne_true]
      exact hclose
    | true =>
      rw [if_pos rfl]
      dsimp only
      by_cases hij : i = j
      · rw [hij, Function.update_self, if_pos rfl]
        rfl
      · have hji : ¬ some j = some i := fun h => hij (Option.some.inj h).symm
        rw [Function.update_of_ne hij, if_neg hji]
        rwa [if_neg hji] at hclose

theorem rotaryGetevent_data (channel : Nat) (s : State) (i : Channel) :
    (rotaryGetevent channel s).2.data i =
      if channelOf channel = some i then (s.data i).map fun d => (getevent d).2
      else s.data i := by
  unfold rotaryGetevent
  cases hc : channelOf channel with
  | none => rfl
  | some j =>
    dsimp only
    by_cases hij : i = j
    · rw [hij, if_pos rfl]
      cases hdj : s.data j with
      | none => exact hdj
      | some d => exact Function.update_self _ _ _
    · rw [if_neg fun h => hij (Option.some.inj h).symm]
      cases s.data j with
      | none => rfl
      | some d => exact Function.update_of_ne hij _ _

theorem step_inv (t : Tracked) (e : Event) (ht : SystemInv t) (he : Harmless t e) :
    SystemInv (step t e) := by
  intro i d hd
  cases e with
  | setup channel pins tasknumber allocOk =>
    change (rotarySetup channel pins tasknumber allocOk t.state).2.data i = some d at hd
    change Inv d (if channelOf channel = some i then ⟨[], []⟩ else t.history i)
    rw [rotarySetup_data] at hd
    split at hd
    · next hc =>
      rw [if_pos hc]
      cases allocOk with
      | false => cases hd
      | true =>
        obtain rfl := Option.some.inj hd
        exact inv_new pins tasknumber
    · next hc =>
      rw [if_neg hc]
      exact ht i d hd
  | close channel =>
    change (rotaryClose channel t.state).2.data i = some d at hd
    change Inv d (if channelOf channel = some i then ⟨[], []⟩ else t.history i)
    rw [rotaryClose_data] at hd
    split at hd
    · cases hd
    · next hc =>
      rw [if_neg hc]
      exact ht i d hd
  | interrupt retGpioStatus intr =>
    change (rotaryInterrupt retGpioStatus intr t.state).1.data i = some d at hd
    rw [rotaryInterrupt_data, Option.map_eq_some_iff] at hd
    obtain ⟨d0, hd0, rfl⟩ := hd
    have hinv := ht i d0 hd0
    change Inv _ (track t i (.interrupt retGpioStatus intr))
    rw [track, hd0, interrupted]
    dsimp only
    split
    · exact hinv
    · next hmask => exact inv_interrupt d0 _ _ hinv (he i d0 hd0 hmask)
  | getevent channel =>
    change (rotaryGetevent channel t.state).2.data i = some d at hd
    change Inv d (track t i (.getevent channel))
    rw [rotaryGetevent_data] at hd
    rw [track]
    by_cases hc : channelOf channel = some i
    · rw [if_pos hc, Option.map_eq_some_iff] at hd
      obtain ⟨d0, hd0, rfl⟩ := hd
      rw [if_pos hc, rotaryGetevent, hc]
      dsimp only
      rw [hd0]
      dsimp only
      unfold getevent
      split
      · next hdata => exact inv_getevent d0 _ (ht i d0 hd0) hdata
      · exact ht i d0 hd0
    · rw [if_neg hc] at hd ⊢
      exact ht i d hd
  | task => exact ht i d hd

theorem law_of_inv (t : Tracked) (ht : SystemInv t) : Law t :=
  fun i d hd => faithful_of_inv d _ (ht i d hd)

theorem step_law_iff (t : Tracked) (e : Event) (ht : SystemInv t) :
    Law (step t e) ↔ Harmless t e := by
  constructor
  · intro hlaw
    cases e with
    | interrupt retGpioStatus intr =>
      intro i d hd hmask hne heq
      by_contra hlast
      have hdata : (step t (.interrupt retGpioStatus intr)).state.data i =
          some (interruptChannel d (intr.readings i)) := by
        change (rotaryInterrupt retGpioStatus intr t.state).1.data i = _
        rw [rotaryInterrupt_data, hd, Option.map_some, interrupted, if_neg hmask]
      have hfaithful := hlaw i _ hdata
      change Faithful _ (track t i (.interrupt retGpioStatus intr)) at hfaithful
      rw [track, hd] at hfaithful
      dsimp only at hfaithful
      rw [if_neg hmask] at hfaithful
      exact interrupt_not_faithful d _ _ (ht i d hd) hne heq hlast hfaithful
    | setup | close | getevent | task => trivial
  · intro he
    exact law_of_inv _ (step_inv t e ht he)

theorem start_inv : SystemInv start := fun _ _ hd => nomatch hd

theorem along_law_iff (t : Tracked) (es : List Event) (ht : SystemInv t) :
    Along step (fun t e => Law (step t e)) t es ↔ Along step Harmless t es := by
  apply along_congr step _ _ SystemInv
  · exact fun t e ht => step_law_iff t e ht
  · intro t e ht hlaw
    exact step_inv t e ht ((step_law_iff t e ht).mp hlaw)
  · exact ht

/-- The queues keep what they are for as long as no interrupt meets an empty queue whose offset is
at the end of its range. -/
theorem run_law_iff (es : List Event) :
    Along step (fun t e => Law (step t e)) start es ↔ Along step Harmless start es :=
  along_law_iff start es start_inv

end system

section overflow

def turnedPins : Pins := ⟨1, 2, 4⟩

/-- What the handler reads when the switch is turned forth and back, a step each millisecond. -/
def turnReadings (k : Nat) : Readings where
  bits := if k % 2 = 0 then 5 else 7
  now := UInt32.ofNat (1000 * k)
  timeUs := UInt32.ofNat (1000 * k)
  taskPosted := true

def turn (k : Nat) : Event := .interrupt 1 ⟨1, fun _ => turnReadings k⟩

/-- So many turns, each read before the next one. -/
def turns (n : Nat) : List Event := (List.range n).flatMap fun k => [turn k, .getevent 0]

def firstChannel : Channel := ⟨0, by decide⟩

/-- The channel when so many turns were read. -/
structure TurnedTo (k : Nat) (d : Data) : Prop where
  read : d.readOffset = UInt32.ofNat k
  write : d.writeOffset = UInt32.ofNat k
  pins : d.pinMask = 7 ∧ d.phaseA = 1 ∧ d.phaseB = 2 ∧ d.press = 4
  pos : (getLastStatus d).pos = UInt32.ofNat (k % 2)

theorem debounce_turn (k : Nat) (d : Data) (h : TurnedTo k d) :
    (debounce d (turnReadings k)).1 = 0 := by
  have hpress : (turnReadings k).bits &&& d.press ≠ 0 := by
    rw [h.pins.2.2.2, turnReadings]
    dsimp only
    split <;> decide
  have hlow : UInt32.ofNat (k % 2) &&& pressedBit = 0 := by
    obtain h0 | h1 := Nat.mod_two_eq_zero_or_one k
    · rw [h0]; decide
    · rw [h1]; decide
  unfold debounce
  dsimp only
  split
  · rfl
  · rw [h.pos]
    exact hlow

theorem newStatus_turn (k : Nat) (d : Data) (h : TurnedTo k d) :
    newStatus d (turnReadings k) = UInt32.ofNat ((k + 1) % 2) := by
  obtain ⟨-, ha, hb, -⟩ := h.pins
  have hpos := h.pos
  rw [newStatus, debounce_turn k d h, rotaryPos, micropos, hpos, ha, hb]
  obtain h0 | h1 := Nat.mod_two_eq_zero_or_one k
  · have hnext : (k + 1) % 2 = 1 := by omega
    have hbits : (turnReadings k).bits = 5 := if_pos h0
    rw [h0, hnext, hbits]
    decide
  · have hnext : (k + 1) % 2 = 0 := by omega
    have hbits : (turnReadings k).bits = 7 := if_neg (by omega)
    rw [h1, hnext, hbits]
    decide

theorem newStatus_turn_ne (k : Nat) (d : Data) (h : TurnedTo k d) :
    newStatus d (turnReadings k) ≠ (getLastStatus d).pos := by
  rw [newStatus_turn k d h, h.pos]
  obtain h0 | h1 := Nat.mod_two_eq_zero_or_one k
  · have hnext : (k + 1) % 2 = 1 := by omega
    rw [h0, hnext]
    decide
  · have hnext : (k + 1) % 2 = 0 := by omega
    rw [h1, hnext]
    decide

theorem ofNat_succ (k : Nat) : UInt32.ofNat k + 1 = UInt32.ofNat (k + 1) := by
  apply UInt32.toNat_inj.mp
  rw [UInt32.toNat_add, UInt32.toNat_ofNat', UInt32.toNat_ofNat', UInt32.toNat_one]
  omega

/-- A turn that is queued and read. -/
theorem turn_read (k : Nat) (d : Data) (h : TurnedTo k d) (hk : k + 7 < 2 ^ 32) :
    TurnedTo (k + 1) (getevent (interruptChannel d (turnReadings k))).2 := by
  have hknat : (UInt32.ofNat k).toNat = k := by
    rw [UInt32.toNat_ofNat']
    exact Nat.mod_eq_of_lt (by omega)
  have hspace : hasQueueSpace d = true := by
    rw [hasQueueSpace_iff d (by rw [h.read, h.write]), h.read, h.write, hknat]
    omega
  have hdata : hasQueuedData d = false := by
    rw [hasQueuedData, h.read, h.write]
    exact decide_eq_false (UInt32.lt_irrefl _)
  have hw : writtenAs d (newStatus d (turnReadings k)) = .queued := by
    obtain ⟨-, hsame⟩ | ⟨hw, -⟩ | ⟨hw, -, hor⟩ :=
      writtenAs_cases d (newStatus d (turnReadings k))
    · exact absurd hsame (newStatus_turn_ne k d h)
    · exact hw
    · rw [hdata, hspace] at hor
      simp at hor
  have hqueued : hasQueuedData (interruptChannel d (turnReadings k)) = true := by
    rw [hasQueuedData_iff, interruptChannel, hw]
    change d.readOffset.toNat < (d.writeOffset + 1).toNat
    rw [h.read, h.write, toNat_succ _ (by omega)]
    exact Nat.lt_succ_self _
  rw [getevent, if_pos hqueued, interruptChannel, hw]
  refine ⟨?_, ?_, h.pins, ?_⟩
  · change d.readOffset + 1 = _
    rw [h.read, ofNat_succ]
  · change d.writeOffset + 1 = _
    rw [h.write, ofNat_succ]
  · change (Function.update d.queue (indexOf d.writeOffset)
      ⟨newStatus d (turnReadings k), (turnReadings k).timeUs⟩
      (indexOf (d.writeOffset + 1 - 1))).pos = _
    rw [UInt32.add_sub_cancel, Function.update_self]
    exact newStatus_turn k d h

theorem run_turns (n : Nat) (t : Tracked) (d : Data) (hd : t.state.data firstChannel = some d)
    (h : TurnedTo 0 d) (hn : n + 7 ≤ 2 ^ 32) :
    ∃ d', (run step t (turns n)).state.data firstChannel = some d' ∧ TurnedTo n d' := by
  induction n with
  | zero => exact ⟨d, hd, h⟩
  | succ n ih =>
    obtain ⟨d1, hd1, h1⟩ := ih (by omega)
    have hturns : turns (n + 1) = turns n ++ [turn n, .getevent 0] := by
      rw [turns, List.range_succ, List.flatMap_append]
      rfl
    have hmask : (1 : UInt32) &&& d1.pinMask ≠ 0 := by
      rw [h1.pins.1]
      decide
    rw [hturns, run_append, run_cons, run_cons, run_nil]
    generalize run step t (turns n) = t1 at hd1 ⊢
    have hd2 : (step t1 (turn n)).state.data firstChannel =
        some (interruptChannel d1 (turnReadings n)) := by
      change (rotaryInterrupt 1 ⟨1, fun _ => turnReadings n⟩ t1.state).1.data firstChannel = _
      rw [rotaryInterrupt_data, hd1, Option.map_some, interrupted, if_neg hmask]
    refine ⟨_, ?_, turn_read n d1 h1 (by omega)⟩
    change (rotaryGetevent 0 (step t1 (turn n)).state).2.data firstChannel = _
    have hchannel : channelOf 0 = some firstChannel := rfl
    rw [rotaryGetevent, hchannel]
    dsimp only
    rw [hd2]
    dsimp only
    rw [Function.update_self]

theorem along_append_right (P : Tracked → Event → Prop) (t : Tracked) (es es' : List Event)
    (h : Along step P t (es ++ es')) : Along step P (run step t es) es' := by
  induction es generalizing t with
  | nil => exact h
  | cons e es ih => exact ih _ h.2

theorem turns_not_harmless (n : Nat) (hn : n + 7 = 2 ^ 32) :
    ¬ Along step Harmless start (.setup 0 turnedPins 0 true :: (turns n ++ [turn n])) := by
  intro h
  have hsetup : (step start (.setup 0 turnedPins 0 true)).state.data firstChannel =
      some (newData turnedPins 0) := rfl
  have hnew : TurnedTo 0 (newData turnedPins 0) := ⟨rfl, rfl, ⟨rfl, rfl, rfl, rfl⟩, rfl⟩
  obtain ⟨d, hd, hturned⟩ := run_turns n _ _ hsetup hnew (Nat.le_of_eq hn)
  have hlast := (along_append_right Harmless _ (turns n) _ h.2).1
  have hmask : (1 : UInt32) &&& d.pinMask ≠ 0 := by
    rw [hturned.pins.1]
    decide
  have hlt := hlast firstChannel d hd hmask (newStatus_turn_ne _ d hturned)
    (hturned.read.trans hturned.write.symm)
  rw [hturned.read, UInt32.lt_iff_toNat_lt, UInt32.toNat_ofNat'] at hlt
  have : lastOffset.toNat = 2 ^ 32 - 7 := rfl
  omega

/-- After so many turns that the offset is at the end of its range, the next one is lost. -/
theorem longTurning_not_law :
    ¬ Along step (fun t e => Law (step t e)) start
      (.setup 0 turnedPins 0 true :: (turns (2 ^ 32 - 7) ++ [turn (2 ^ 32 - 7)])) := by
  rw [along_law_iff _ _ start_inv]
  exact turns_not_harmless (2 ^ 32 - 7) (by omega)

end overflow

end NodeMcu.Rotary.Queue
