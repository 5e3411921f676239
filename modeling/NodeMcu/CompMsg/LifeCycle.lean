import NodeMcu.CompMsg.Reassembly

namespace NodeMcu.CompMsg.LifeCycle

open NodeMcu.Lib.Memory NodeMcu.Lib.Run
open NodeMcu.CompMsg.Codes NodeMcu.CompMsg.Identify NodeMcu.CompMsg.Request
open NodeMcu.CompMsg.Reassembly

def Occupied (r : RequestInfo) : Prop := r.requestType ≠ 0 ∨ r.sud ≠ none

/-- The request in the slot is over: it was handled or the slot was reset. -/
def Over (r : RequestInfo) : Prop := r.isComplete = true ∨ r.requestDispatcher = none

/-- The slot with the dispatcher, the flag and the index that its first request found. -/
def asNew (i : Fin maxRequests) (r : RequestInfo) : RequestInfo :=
  { r with requestDispatcher := some i, currIdx := 0, isComplete := false }

/-- What a call makes of a request: its return code, the flag and how many bytes it has stored. -/
def outcome (u : Ret × RequestInfo) : Ret × Bool × Nat := (u.1, u.2.isComplete, u.2.currIdx)

/-- The call goes as it went for the first request of the slot. -/
def AsFirst (headerLgth : Nat) (call : Call) (i : Fin maxRequests) (r : RequestInfo) : Prop :=
  outcome (useSlot headerLgth call r) = outcome (useSlot headerLgth call (asNew i r))

/-- What a step keeps: occupied slots have a dispatcher, and a request that follows one that is
over is detected as the first one was. -/
def Reusable (headerLgth : Nat) (t : Tracked) (op : Op) : Prop :=
  t.crashed = false →
    (∀ i, Occupied ((step headerLgth t op).requests i) →
      ((step headerLgth t op).requests i).requestDispatcher ≠ none) ∧
    ∀ call i, op = .add call → findSlot call t.requests = some i → Over (t.requests i) →
      AsFirst headerLgth call i (t.requests i)

/-- The slot that the call finds was neither reset nor has it seen a complete request. -/
def FirstUse (t : Tracked) (op : Op) : Prop :=
  t.crashed = false → ∀ call i, op = .add call → findSlot call t.requests = some i →
    (t.requests i).requestDispatcher ≠ none ∧ (t.requests i).isComplete = false

/-- What holds of a slot as long as no call has used it again. -/
structure SlotInv (r : RequestInfo) : Prop where
  total : r.totalLgth = 0 ∨ r.totalLgth = 999
  complete : r.isComplete = true → r.currIdx = 999 ∧ r.totalLgth = 999
  reset : r.requestDispatcher = none → r = zeroRequest

def Inv (t : Tracked) : Prop := t.crashed = false → ∀ i, SlotInv (t.requests i)

theorem openSlot_asNew (call : Call) (i : Fin maxRequests) (r : RequestInfo) :
    openSlot call (asNew i r) = ((openSlot call r).1, asNew i (openSlot call r).2) := by
  unfold openSlot claimSlot
  by_cases hs : r.sud = call.sud
  · have hs' : (asNew i r).sud = call.sud := hs
    rw [if_pos hs, if_pos hs']
  · have hs' : ¬ (asNew i r).sud = call.sud := hs
    rw [if_neg hs, if_neg hs']
    cases call.zallocOk <;> rfl

theorem growData_asNew (growOk : Bool) (i : Fin maxRequests) (r : RequestInfo) (lgth : Nat) :
    growData growOk (asNew i r) lgth =
      ((growData growOk r lgth).1, asNew i (growData growOk r lgth).2) := by
  unfold growData
  by_cases hlt : r.currLgth < lgth
  · have hlt' : (asNew i r).currLgth < lgth := hlt
    rw [if_pos hlt, if_pos hlt']
    cases growOk <;> rfl
  · have hlt' : ¬ (asNew i r).currLgth < lgth := hlt
    rw [if_neg hlt, if_neg hlt']

/-- What `openSlot` and `growData` leave alone. -/
structure SameRequest (r r' : RequestInfo) : Prop where
  dispatcher : r'.requestDispatcher = r.requestDispatcher
  currIdx : r'.currIdx = r.currIdx
  isComplete : r'.isComplete = r.isComplete

theorem openSlot_same (call : Call) (r : RequestInfo) : SameRequest r (openSlot call r).2 := by
  unfold openSlot claimSlot
  split
  · exact ⟨rfl, rfl, rfl⟩
  · split
    · exact ⟨rfl, rfl, rfl⟩
    · exact ⟨rfl, rfl, rfl⟩

theorem growData_same (growOk : Bool) (r : RequestInfo) (lgth : Nat) :
    SameRequest r (growData growOk r lgth).2 ∧
      (growData growOk r lgth).2.totalLgth = r.totalLgth := by
  unfold growData
  split
  · dsimp only
    split
    · exact ⟨⟨rfl, rfl, rfl⟩, rfl⟩
    · exact ⟨⟨rfl, rfl, rfl⟩, rfl⟩
  · exact ⟨⟨rfl, rfl, rfl⟩, rfl⟩

theorem openSlot_currLgth (call : Call) (r : RequestInfo) :
    (openSlot call r).2.currLgth = r.currLgth := by
  unfold openSlot claimSlot
  split
  · rfl
  · split <;> rfl

theorem growData_data (growOk : Bool) (r : RequestInfo) (lgth : Nat) (hlt : r.currLgth < lgth)
    (h : (growData growOk r lgth).1 = .ok ()) : (growData growOk r lgth).2.data ≠ none := by
  unfold growData at h ⊢
  rw [if_pos hlt] at h ⊢
  cases growOk with
  | true => exact Option.some_ne_none _
  | false => cases h

/-- How far the loop of `detectMsg` comes. -/
theorem storeLoop_currIdx (headerLgth : Nat) (check : Ret) (r : RequestInfo) (cs : List UInt8)
    (hd : r.data ≠ none) (hi : r.currIdx < 65536) :
    ∃ k, k ≤ cs.length ∧ (cs ≠ [] → 1 ≤ k) ∧
      (storeLoop headerLgth check r cs).2.currIdx = (r.currIdx + k) % 65536 := by
  induction cs generalizing r with
  | nil => exact ⟨0, Nat.le_refl _, fun h => absurd rfl h, (Nat.mod_eq_of_lt hi).symm⟩
  | cons c cs ih =>
    obtain ⟨b, hb⟩ := Option.ne_none_iff_exists'.mp hd
    have hidx : (storeAt r b c).currIdx = (r.currIdx + 1) % 65536 := rfl
    rw [storeLoop, hb]
    dsimp only
    split
    · split
      · exact ⟨1, by simp, fun _ => Nat.le_refl _, hidx⟩
      · obtain ⟨k, hk, -, hrest⟩ := ih (storeAt r b c) (Option.some_ne_none _)
          (by rw [hidx]; exact Nat.mod_lt _ (by decide))
        refine ⟨k + 1, by simpa using hk, fun _ => by omega, ?_⟩
        rw [hrest, hidx]
        omega
    · exact ⟨1, by simp, fun _ => Nat.le_refl _, hidx⟩

/-- The loop sets the flag at the total length only, and never takes it back. -/
theorem storeLoop_isComplete (headerLgth : Nat) (check : Ret) (r : RequestInfo)
    (cs : List UInt8) :
    (storeLoop headerLgth check r cs).2.totalLgth = r.totalLgth ∧
      (storeLoop headerLgth check r cs).2.requestDispatcher = r.requestDispatcher ∧
      (r.isComplete = true → (storeLoop headerLgth check r cs).2.isComplete = true) ∧
      (r.isComplete = false → (storeLoop headerLgth check r cs).2.isComplete = true →
        cs ≠ [] ∧ r.data ≠ none ∧ 0 < r.totalLgth ∧
          (storeLoop headerLgth check r cs).2.currIdx = r.totalLgth) := by
  induction cs generalizing r with
  | nil => exact ⟨rfl, rfl, fun h => h, fun h h' => absurd (h.symm.trans h') (by decide)⟩
  | cons c cs ih =>
    rw [storeLoop]
    cases hb : r.data with
    | none => exact ⟨rfl, rfl, fun h => h, fun h h' => absurd (h.symm.trans h') (by decide)⟩
    | some b =>
      dsimp only
      split
      · split
        next ht =>
          exact ⟨rfl, rfl, fun _ => rfl,
            fun _ _ => ⟨List.cons_ne_nil _ _, Option.some_ne_none _, ht.2, ht.1⟩⟩
        · obtain ⟨h1, h2, h3, h4⟩ := ih (storeAt r b c)
          refine ⟨h1, h2, h3, fun hf hc => ?_⟩
          obtain ⟨-, -, h5, h6⟩ := h4 hf hc
          exact ⟨List.cons_ne_nil _ _, Option.some_ne_none _, h5, h6⟩
      · exact ⟨rfl, rfl, fun h => h, fun h h' => absurd (h.symm.trans h') (by decide)⟩

/-- How far a call comes: to the claim of the slot, to the dispatcher, to the growth of the memory
or into the loop. -/
theorem useSlot_cases (headerLgth : Nat) (call : Call) (r : RequestInfo) :
    (∃ e, (openSlot call r).1 = .error e ∧
      useSlot headerLgth call r = (.error e, (openSlot call r).2)) ∨
    ((openSlot call r).1 = .ok () ∧ r.requestDispatcher = none ∧
      useSlot headerLgth call r = (.crash, (openSlot call r).2)) ∨
    ((openSlot call r).1 = .ok () ∧ r.requestDispatcher ≠ none ∧
      ∃ e, (growData call.growOk (openSlot call r).2 call.chunk.bytes.length).1 = .error e ∧
        useSlot headerLgth call r =
          (.error e, (growData call.growOk (openSlot call r).2 call.chunk.bytes.length).2)) ∨
    ((openSlot call r).1 = .ok () ∧ r.requestDispatcher ≠ none ∧
      (growData call.growOk (openSlot call r).2 call.chunk.bytes.length).1 = .ok () ∧
        (useSlot headerLgth call r).2 = (storeLoop headerLgth call.headerCheck
          (growData call.growOk (openSlot call r).2 call.chunk.bytes.length).2
          call.chunk.bytes).2) := by
  have hs := (openSlot_same call r).dispatcher
  cases ho : (openSlot call r).1 with
  | error e =>
    refine .inl ⟨e, rfl, ?_⟩
    rw [useSlot, ho]
  | ok u =>
    by_cases hd : r.requestDispatcher = none
    · refine .inr (.inl ⟨rfl, hd, ?_⟩)
      rw [useSlot, ho]
      dsimp only
      rw [hs, hd]
    · have hd' : (openSlot call r).2.requestDispatcher ≠ none := by rwa [hs]
      cases hg : (growData call.growOk (openSlot call r).2 call.chunk.bytes.length).1 with
      | error e =>
        refine .inr (.inr (.inl ⟨rfl, hd, e, rfl, ?_⟩))
        obtain ⟨disp, hdisp⟩ := Option.ne_none_iff_exists'.mp hd'
        have hdet : detectMsg headerLgth call (openSlot call r).2 =
            (.error e, (growData call.growOk (openSlot call r).2 call.chunk.bytes.length).2) := by
          rw [detectMsg, hg]
        rw [useSlot, ho]
        dsimp only
        rw [hdisp]
        dsimp only
        rw [hdet]
      | ok v =>
        refine .inr (.inr (.inr ⟨rfl, hd, rfl, ?_⟩))
        rw [useSlot_slot headerLgth call r ho hd', detectMsg_grown headerLgth call _ hg]

theorem useSlot_dispatcher (headerLgth : Nat) (call : Call) (r : RequestInfo) :
    (useSlot headerLgth call r).2.requestDispatcher = r.requestDispatcher := by
  have ho := openSlot_same call r
  have hg := (growData_same call.growOk (openSlot call r).2 call.chunk.bytes.length).1
  obtain ⟨e, -, h⟩ | ⟨-, -, h⟩ | ⟨-, -, e, -, h⟩ | ⟨-, -, -, h⟩ := useSlot_cases headerLgth call r
  · rw [h, ho.dispatcher]
  · rw [h, ho.dispatcher]
  · rw [h, hg.dispatcher, ho.dispatcher]
  · rw [h, (storeLoop_isComplete _ _ _ _).2.1, hg.dispatcher, ho.dispatcher]

theorem openSlot_totalLgth (call : Call) (r : RequestInfo) :
    (openSlot call r).2.totalLgth = r.totalLgth ∨ (openSlot call r).2.totalLgth = 999 := by
  unfold openSlot claimSlot
  split
  · exact .inl rfl
  · split
    · exact .inr rfl
    · exact .inl rfl

theorem useSlot_totalLgth (headerLgth : Nat) (call : Call) (r : RequestInfo) :
    (useSlot headerLgth call r).2.totalLgth = r.totalLgth ∨
      (useSlot headerLgth call r).2.totalLgth = 999 := by
  have ho := openSlot_totalLgth call r
  have hg := (growData_same call.growOk (openSlot call r).2 call.chunk.bytes.length).2
  obtain ⟨e, -, h⟩ | ⟨-, -, h⟩ | ⟨-, -, e, -, h⟩ | ⟨-, -, -, h⟩ := useSlot_cases headerLgth call r
  · rwa [h]
  · rwa [h]
  · rwa [h, hg]
  · rwa [h, (storeLoop_isComplete _ _ _ _).1, hg]

theorem useSlot_stays_complete (headerLgth : Nat) (call : Call) (r : RequestInfo)
    (hr : r.isComplete = true) : (useSlot headerLgth call r).2.isComplete = true := by
  have ho := openSlot_same call r
  have hg := (growData_same call.growOk (openSlot call r).2 call.chunk.bytes.length).1
  obtain ⟨e, -, h⟩ | ⟨-, -, h⟩ | ⟨-, -, e, -, h⟩ | ⟨-, -, -, h⟩ := useSlot_cases headerLgth call r
  · rw [h, ho.isComplete, hr]
  · rw [h, ho.isComplete, hr]
  · rw [h, hg.isComplete, ho.isComplete, hr]
  · rw [h]
    exact (storeLoop_isComplete _ _ _ _).2.2.1 (by rw [hg.isComplete, ho.isComplete, hr])

/-- A call that completes a request has come into the loop and stopped at the total length. -/
theorem useSlot_completes (headerLgth : Nat) (call : Call) (r : RequestInfo)
    (hr : r.isComplete = false) (hc : (useSlot headerLgth call r).2.isComplete = true) :
    (openSlot call r).1 = .ok () ∧
      (growData call.growOk (openSlot call r).2 call.chunk.bytes.length).1 = .ok () ∧
      (growData call.growOk (openSlot call r).2 call.chunk.bytes.length).2.data ≠ none ∧
      call.chunk.bytes ≠ [] ∧ 0 < (useSlot headerLgth call r).2.totalLgth ∧
      (useSlot headerLgth call r).2.currIdx = (useSlot headerLgth call r).2.totalLgth := by
  have ho := openSlot_same call r
  have hg := (growData_same call.growOk (openSlot call r).2 call.chunk.bytes.length).1
  obtain ⟨e, -, h⟩ | ⟨-, -, h⟩ | ⟨-, -, e, -, h⟩ | ⟨h1, -, h2, h⟩ :=
    useSlot_cases headerLgth call r
  · rw [h, ho.isComplete, hr] at hc
    cases hc
  · rw [h, ho.isComplete, hr] at hc
    cases hc
  · rw [h, hg.isComplete, ho.isComplete, hr] at hc
    cases hc
  · rw [h] at hc
    obtain ⟨ht, -, -, hl⟩ := storeLoop_isComplete headerLgth call.headerCheck
      (growData call.growOk (openSlot call r).2 call.chunk.bytes.length).2 call.chunk.bytes
    obtain ⟨hne, hdata, hpos, hidx⟩ := hl (by rw [hg.isComplete, ho.isComplete, hr]) hc
    exact ⟨h1, h2, hdata, hne, by rwa [h, ht], by rw [h, ht, hidx]⟩

/-- The flag and the index of a complete request are in the way of the next one. -/
theorem complete_not_asFirst (headerLgth : Nat) (call : Call) (i : Fin maxRequests)
    (r : RequestInfo) (hr : SlotInv r) (hc : r.isComplete = true)
    (hd : r.requestDispatcher ≠ none) : ¬ AsFirst headerLgth call i r := by
  intro h
  obtain ⟨hidx, htotal⟩ := hr.complete hc
  have hflag := congrArg (fun o => o.2.1) h
  have hcount := congrArg (fun o => o.2.2) h
  simp only [outcome, useSlot_stays_complete headerLgth call r hc] at hflag hcount
  obtain ⟨ho, hg, hdata, hne, hpos, hend⟩ :=
    useSlot_completes headerLgth call (asNew i r) rfl hflag.symm
  have ht := useSlot_totalLgth headerLgth call (asNew i r)
  have ht0 : (asNew i r).totalLgth = 999 := htotal
  rw [openSlot_asNew] at ho hg hdata
  rw [growData_asNew] at hg hdata
  have hgrown : (growData call.growOk (openSlot call r).2 call.chunk.bytes.length).2.data ≠ none :=
    hdata
  have ho' := openSlot_same call r
  have hg' := (growData_same call.growOk (openSlot call r).2 call.chunk.bytes.length).1
  have hidx' : (growData call.growOk (openSlot call r).2 call.chunk.bytes.length).2.currIdx =
      999 := by
    rw [hg'.currIdx, ho'.currIdx, hidx]
  rw [useSlot_slot headerLgth call r ho (by rwa [ho'.dispatcher]),
    detectMsg_grown headerLgth call _ hg] at hcount
  obtain ⟨k, hk, hk1, hend'⟩ := storeLoop_currIdx headerLgth call.headerCheck _ call.chunk.bytes
    hgrown (by rw [hidx']; decide)
  have hshort := call.chunk.short
  have hk1 := hk1 hne
  rw [hend', hidx'] at hcount
  omega

theorem useSlot_empty (headerLgth : Nat) (call : Call) (r : RequestInfo)
    (ho : (openSlot call r).1 = .ok ()) (hd : r.requestDispatcher ≠ none)
    (hr : r.isComplete = false) (hnil : call.chunk.bytes = []) :
    (useSlot headerLgth call r).1 = .ok := by
  have hs := openSlot_same call r
  obtain ⟨disp, hdisp⟩ := Option.ne_none_iff_exists'.mp hd
  have hdet : detectMsg headerLgth call (openSlot call r).2 = (.ok, (openSlot call r).2) := by
    rw [detectMsg, hnil]
    rfl
  rw [useSlot, ho]
  dsimp only
  rw [hs.dispatcher, hdisp]
  dsimp only
  rw [hdet]
  dsimp only
  rw [hs.isComplete, hr]
  rfl

/-- A slot that was reset has lost its dispatcher. -/
theorem reset_not_asFirst (headerLgth : Nat) (call : Call) (i : Fin maxRequests)
    (ho : (openSlot call zeroRequest).1 = .ok ()) :
    ¬ AsFirst headerLgth call i zeroRequest := by
  intro h
  have hret := congrArg (fun o => o.1) h
  have hcount := congrArg (fun o => o.2.2) h
  have hcrash : useSlot headerLgth call zeroRequest = (.crash, (openSlot call zeroRequest).2) := by
    obtain ⟨e, h1, -⟩ | ⟨-, -, h1⟩ | ⟨-, h1, -⟩ | ⟨-, h1, -⟩ :=
      useSlot_cases headerLgth call zeroRequest
    · rw [ho] at h1
      cases h1
    · exact h1
    · exact absurd rfl h1
    · exact absurd rfl h1
  have hs := openSlot_same call zeroRequest
  have ho' : (openSlot call (asNew i zeroRequest)).1 = .ok () := by rw [openSlot_asNew, ho]
  have hs' := openSlot_same call (asNew i zeroRequest)
  have hd' : (asNew i zeroRequest).requestDispatcher ≠ none := Option.some_ne_none _
  simp only [outcome, hcrash, hs.currIdx] at hret hcount
  by_cases hnil : call.chunk.bytes = []
  · rw [useSlot_empty headerLgth call _ ho' hd' rfl hnil] at hret
    cases hret
  · have hpos := List.length_pos_iff.mpr hnil
    have hg' := growData_same call.growOk (openSlot call (asNew i zeroRequest)).2
      call.chunk.bytes.length
    obtain ⟨e, h1, -⟩ | ⟨-, h1, -⟩ | ⟨-, -, e, -, h1⟩ | ⟨-, -, h2, h1⟩ :=
      useSlot_cases headerLgth call (asNew i zeroRequest)
    · rw [ho'] at h1
      cases h1
    · exact absurd h1 hd'
    · rw [h1] at hret
      cases hret
    · have hdata := growData_data call.growOk (openSlot call (asNew i zeroRequest)).2
        call.chunk.bytes.length (by rw [openSlot_currLgth]; exact hpos) h2
      have hidx : (growData call.growOk (openSlot call (asNew i zeroRequest)).2
          call.chunk.bytes.length).2.currIdx = 0 := by
        rw [hg'.1.currIdx, hs'.currIdx]
        rfl
      obtain ⟨k, hk, hk1, hend⟩ := storeLoop_currIdx headerLgth call.headerCheck _
        call.chunk.bytes hdata (by rw [hidx]; decide)
      have hshort := call.chunk.short
      have hk1 := hk1 hnil
      have hzero : zeroRequest.currIdx = 0 := rfl
      rw [h1, hend, hidx, hzero] at hcount
      omega

theorem step_add (headerLgth : Nat) (t : Tracked) (call : Call) (i : Fin maxRequests)
    (hc : t.crashed = false) (hi : findSlot call t.requests = some i) :
    (step headerLgth t (.add call)).requests =
      Function.update t.requests i (useSlot headerLgth call (t.requests i)).2 := by
  simp only [step, hc, apply, addRequestData, hi, Bool.false_eq_true, if_false]

theorem slotInv_not_occupied (r : RequestInfo) (hr : SlotInv r) (hd : r.requestDispatcher = none) :
    ¬ Occupied r := by
  rw [hr.reset hd]
  rintro (h | h)
  · exact h rfl
  · exact h rfl

/-- A slot that a call claims is occupied, also where there is no memory. -/
theorem openSlot_error_occupied (call : Call) (r : RequestInfo) (e : CompMsgErr)
    (h : (openSlot call r).1 = .error e) (hs : r.sud = none) : Occupied (openSlot call r).2 := by
  unfold openSlot at h ⊢
  by_cases hsud : r.sud = call.sud
  · rw [if_pos hsud] at h
    cases h
  · rw [if_neg hsud, claimSlot]
    have hne : call.sud ≠ none := fun h0 => hsud (hs.trans h0.symm)
    split
    · exact .inr hne
    · exact .inr hne

theorem zeroRequest_inv : SlotInv zeroRequest :=
  ⟨.inl rfl, fun h => (nomatch h), fun _ => rfl⟩

theorem useSlot_inv (headerLgth : Nat) (call : Call) (r : RequestInfo) (hr : SlotInv r)
    (hd : r.requestDispatcher ≠ none) (hc : r.isComplete = false) :
    SlotInv (useSlot headerLgth call r).2 := by
  have ht : (useSlot headerLgth call r).2.totalLgth = 0 ∨
      (useSlot headerLgth call r).2.totalLgth = 999 := by
    have hr' := hr.total
    have hu := useSlot_totalLgth headerLgth call r
    omega
  refine ⟨ht, ?_, ?_⟩
  · intro h
    obtain ⟨-, -, -, -, hpos, hidx⟩ := useSlot_completes headerLgth call r hc h
    omega
  · intro h
    rw [useSlot_dispatcher] at h
    exact absurd h hd

theorem step_slotInv (headerLgth : Nat) (t : Tracked) (op : Op) (ht : Inv t)
    (hf : FirstUse t op) (hc : t.crashed = false) (i : Fin maxRequests) :
    SlotInv ((step headerLgth t op).requests i) := by
  have hi := ht hc i
  cases op with
  | add call =>
    cases hfind : findSlot call t.requests with
    | none => simpa only [step, hc, apply, addRequestData, hfind, Bool.false_eq_true, if_false]
    | some j =>
      rw [step_add headerLgth t call j hc hfind]
      by_cases hij : i = j
      · subst hij
        obtain ⟨hd, hcomp⟩ := hf hc call i rfl hfind
        rw [Function.update_self]
        exact useSlot_inv headerLgth call _ hi hd hcomp
      · rwa [Function.update_of_ne hij]
  | reset slot =>
    simp only [step, hc, apply, resetRequest, Bool.false_eq_true, if_false]
    by_cases hij : i = slot
    · subst hij
      rw [Function.update_self]
      exact zeroRequest_inv
    · rwa [Function.update_of_ne hij]
  | delete requestType sud =>
    simpa only [step, hc, apply, deleteRequest, Bool.false_eq_true, if_false]

theorem reusable_iff (headerLgth : Nat) (t : Tracked) (op : Op) (ht : Inv t) :
    Reusable headerLgth t op ↔ FirstUse t op := by
  constructor
  · intro h hc call i hop hi
    obtain ⟨hocc, hfirst⟩ := h hc
    have hr := ht hc i
    have hd : (t.requests i).requestDispatcher ≠ none := by
      intro hd
      have hz := hr.reset hd
      have has := hfirst call i hop hi (.inr hd)
      rw [hz] at has
      cases ho : (openSlot call zeroRequest).1 with
      | ok u => exact reset_not_asFirst headerLgth call i ho has
      | error e =>
        obtain ⟨e', -, hu⟩ | ⟨h1, -⟩ | ⟨h1, -⟩ | ⟨h1, -⟩ :=
          useSlot_cases headerLgth call zeroRequest
        · have hslot : (step headerLgth t op).requests i = (openSlot call zeroRequest).2 := by
            rw [hop, step_add headerLgth t call i hc hi, Function.update_self, hz, hu]
          have ho' := openSlot_error_occupied call zeroRequest e ho rfl
          rw [← hslot] at ho'
          apply hocc i ho'
          rw [hslot, (openSlot_same call zeroRequest).dispatcher]
          rfl
        all_goals
          rw [ho] at h1
          cases h1
    refine ⟨hd, ?_⟩
    cases hcomp : (t.requests i).isComplete with
    | false => rfl
    | true =>
      exact absurd (hfirst call i hop hi (.inl hcomp))
        (complete_not_asFirst headerLgth call i _ hr hcomp hd)
  · intro h hc
    refine ⟨?_, ?_⟩
    · intro i hocc hd
      exact slotInv_not_occupied _ (step_slotInv headerLgth t op ht h hc i) hd hocc
    · intro call i hop hi hover
      obtain ⟨hd, hcomp⟩ := h hc call i hop hi
      cases hover with
      | inl hcomp' =>
        rw [hcomp] at hcomp'
        cases hcomp'
      | inr hd' => exact absurd hd' hd

theorem step_inv (headerLgth : Nat) (t : Tracked) (op : Op) (ht : Inv t)
    (hf : FirstUse t op) : Inv (step headerLgth t op) := by
  intro hc
  cases hct : t.crashed with
  | true =>
    rw [step, if_pos hct, hct] at hc
    cases hc
  | false => exact step_slotInv headerLgth t op ht hf hct

theorem start_inv : Inv start := fun _ _ => ⟨.inl rfl, fun h => (nomatch h), fun h => (nomatch h)⟩

/-- Input of a net socket. -/
def netCall (sud : Nat) (chunk : Chunk) : Call := ⟨2, some sud, chunk, true, true, .ok, .ok⟩

end NodeMcu.CompMsg.LifeCycle
