import NodeMcu.CompMsg.LifeCycle

namespace NodeMcu.CompMsg.RequestSlots

open NodeMcu.Lib.Run
open NodeMcu.CompMsg.Codes NodeMcu.CompMsg.Identify NodeMcu.CompMsg.Request
open NodeMcu.CompMsg.LifeCycle

/-- `msgRequestInfos_t`. -/
structure RequestInfos where
  msgRequestInfo : Requests
  currRequestIdx : Int
  lastRequestIdx : Int

/-- The slot of an index. Outside the array there is `none`. -/
def slotAt (requestIdx : Int) : Option (Fin maxRequests) :=
  if h : 0 ≤ requestIdx ∧ requestIdx < maxRequests then
    some ⟨requestIdx.toNat, by omega⟩
  else none

/-- What the loop of `deleteRequest` changes. -/
structure Search where
  requestIdx : Int
  idxDeleted : Int
  idxToStart : Int

def keyOf (r : RequestInfo) : Nat × Option Nat := (r.requestType, r.sud)

/-- One pass of the loop. A slot that matches does not end it. -/
def searchSlot (infos : RequestInfos) (requestType : Nat) (sud : Option Nat) (st : Search)
    (r : RequestInfo) : Search :=
  let found : Bool := r.requestType == requestType && r.sud == sud
  { requestIdx := st.requestIdx + 1
    idxDeleted := if found then st.requestIdx else st.idxDeleted
    idxToStart :=
      if found && st.requestIdx == infos.currRequestIdx &&
          decide (st.requestIdx < infos.lastRequestIdx) then st.requestIdx
      else st.idxToStart }

/-- The loop, with a bound for its passes. -/
def searchLoop (infos : RequestInfos) (requestType : Nat) (sud : Option Nat) :
    Nat → Search → Option Search
  | 0, st => some st
  | n + 1, st =>
    if st.requestIdx < maxRequests then
      match slotAt st.requestIdx with
      | none => none
      | some i =>
        searchLoop infos requestType sud n
          (searchSlot infos requestType sud st (infos.msgRequestInfo i))
    else some st

/-- What `deleteRequest` does with the slot at the index where its loop has ended. -/
def moveDown (requestIdx : Int) (infos : RequestInfos) : Option RequestInfos :=
  if requestIdx < maxRequests then
    match slotAt requestIdx, slotAt (requestIdx + 1) with
    | some i, some j =>
      let r := infos.msgRequestInfo i
      let r1 := infos.msgRequestInfo j
      some { infos with
        msgRequestInfo := Function.update infos.msgRequestInfo i
          { r with requestType := r1.requestType, sud := r1.sud } }
    | _, _ => none
  else some infos

/-- `startRequest` reads a pointer that it never sets, so that nothing is known of it. -/
def startNextRequest (startRequest : RequestInfos → Option (Result × RequestInfos))
    (infos : RequestInfos) : Option (Result × RequestInfos) :=
  match slotAt infos.currRequestIdx with
  | none => none
  | some _ =>
    if infos.currRequestIdx < 0 ∧ infos.currRequestIdx < infos.lastRequestIdx then
      startRequest { infos with currRequestIdx := 0 }
    else if infos.currRequestIdx < infos.lastRequestIdx then
      startRequest { infos with currRequestIdx := infos.currRequestIdx + 1 }
    else some (.ok (), infos)

/-- The result and the slots, `none` where an index outside the array is read. -/
def deleteRequest (startRequest : RequestInfos → Option (Result × RequestInfos))
    (infos : RequestInfos) (requestType : Nat) (sud : Option Nat) :
    Option (Result × RequestInfos) :=
  match searchLoop infos requestType sud maxRequests ⟨0, -1, -1⟩ with
  | none => none
  | some st =>
    match moveDown st.requestIdx infos with
    | none => none
    | some infos =>
      if maxRequests ≤ st.requestIdx then some (.error .requestNotFound, infos)
      else
        match startNextRequest startRequest infos with
        | none => none
        | some r => some (.ok (), r.2)

/-- Types and connections of the occupied slots, in the order of the slots. -/
def occupiedKeys (s : Requests) : List (Nat × Option Nat) :=
  ((List.finRange maxRequests).map fun i => keyOf (s i)).filter fun k => k ≠ (0, none)

/-- No two occupied slots are for the same type and connection. -/
def Distinct (s : Requests) : Prop :=
  ∀ i j, Occupied (s i) → Occupied (s j) → keyOf (s i) = keyOf (s j) → i = j

/-- What a deletion is for. -/
structure Deletes (startRequest : RequestInfos → Option (Result × RequestInfos))
    (infos : RequestInfos) (requestType : Nat) (sud : Option Nat) : Prop where
  inside : deleteRequest startRequest infos requestType sud ≠ none
  deleted : ∀ i, Occupied (infos.msgRequestInfo i) →
    keyOf (infos.msgRequestInfo i) = (requestType, sud) →
    ∃ infos', deleteRequest startRequest infos requestType sud = some (.ok (), infos') ∧
      occupiedKeys infos'.msgRequestInfo =
        (occupiedKeys infos.msgRequestInfo).erase (requestType, sud) ∧
      ∃ j, ¬ Occupied (infos'.msgRequestInfo j)
  missing : (∀ i, keyOf (infos.msgRequestInfo i) ≠ (requestType, sud)) →
    deleteRequest startRequest infos requestType sud = some (.error .requestNotFound, infos)

theorem slotAt_lt (requestIdx : Int) (h : 0 ≤ requestIdx) (hlt : requestIdx < maxRequests) :
    ∃ i, slotAt requestIdx = some i :=
  ⟨_, dif_pos ⟨h, hlt⟩⟩

/-- The loop comes to the end of the array whatever the slots hold. -/
theorem searchLoop_end (infos : RequestInfos) (requestType : Nat) (sud : Option Nat) (n : Nat)
    (st : Search) (h : 0 ≤ st.requestIdx) (hn : st.requestIdx + n = maxRequests) :
    ∃ st', searchLoop infos requestType sud n st = some st' ∧ st'.requestIdx = maxRequests := by
  induction n generalizing st with
  | zero =>
    refine ⟨st, rfl, ?_⟩
    omega
  | succ n ih =>
    have hlt : st.requestIdx < maxRequests := by omega
    obtain ⟨i, hi⟩ := slotAt_lt st.requestIdx h hlt
    have hnext : (searchSlot infos requestType sud st (infos.msgRequestInfo i)).requestIdx =
        st.requestIdx + 1 := rfl
    rw [searchLoop, if_pos hlt, hi]
    apply ih
    · omega
    · omega

/-- The loop ends at the index that the code behind it takes for a missing request. -/
theorem deleteRequest_eq (startRequest : RequestInfos → Option (Result × RequestInfos))
    (infos : RequestInfos) (requestType : Nat) (sud : Option Nat) :
    deleteRequest startRequest infos requestType sud = some (.error .requestNotFound, infos) := by
  obtain ⟨st, hst, hidx⟩ :=
    searchLoop_end infos requestType sud maxRequests ⟨0, -1, -1⟩ (le_refl _) (zero_add _)
  have hmove : moveDown st.requestIdx infos = some infos := by
    rw [moveDown, if_neg]
    omega
  rw [deleteRequest, hst]
  dsimp only
  rw [hmove]
  dsimp only
  rw [if_pos (by omega)]

/-- The deletion that the other modules use is what comes of the loop. -/
theorem deleteRequest_refines (startRequest : RequestInfos → Option (Result × RequestInfos))
    (infos : RequestInfos) (requestType : Nat) (sud : Option Nat) :
    (deleteRequest startRequest infos requestType sud).map
        (fun r => (r.1, r.2.msgRequestInfo)) =
      some (Request.deleteRequest infos.msgRequestInfo) := by
  rw [deleteRequest_eq]
  rfl

/-- A deletion is right where there is nothing to delete. -/
theorem deletes_iff (startRequest : RequestInfos → Option (Result × RequestInfos))
    (infos : RequestInfos) (requestType : Nat) (sud : Option Nat) :
    Deletes startRequest infos requestType sud ↔
      ∀ i, Occupied (infos.msgRequestInfo i) →
        keyOf (infos.msgRequestInfo i) ≠ (requestType, sud) := by
  have hdel := deleteRequest_eq startRequest infos requestType sud
  constructor
  · intro h i hocc hkey
    obtain ⟨infos', hok, -⟩ := h.deleted i hocc hkey
    rw [hdel] at hok
    cases hok
  · intro h
    refine ⟨?_, ?_, fun _ => hdel⟩
    · rw [hdel]
      exact Option.some_ne_none _
    · intro i hocc hkey
      exact absurd hkey (h i hocc)

def socketSlot : Fin maxRequests := ⟨1, by decide⟩

/-- The uart in its slot, a connection in the next. -/
def twoRequests : RequestInfos where
  msgRequestInfo := fun i =>
    if i = uartSlot then { initRequests i with requestType := inputUart }
    else if i = socketSlot then { initRequests i with requestType := 2, sud := some 7 }
    else initRequests i
  currRequestIdx := -1
  lastRequestIdx := -1

theorem closedConnection_not_deleted :
    Distinct twoRequests.msgRequestInfo ∧ Occupied (twoRequests.msgRequestInfo socketSlot) ∧
      keyOf (twoRequests.msgRequestInfo socketSlot) = (2, some 7) ∧
      ¬ Deletes (fun infos => some (.ok (), infos)) twoRequests 2 (some 7) := by
  have hocc : Occupied (twoRequests.msgRequestInfo socketSlot) := .inl (by decide)
  refine ⟨?_, hocc, rfl, ?_⟩
  · unfold Distinct Occupied keyOf
    decide
  · intro h
    obtain ⟨infos', hok, -⟩ := h.deleted socketSlot hocc rfl
    rw [deleteRequest_eq] at hok
    cases hok

section exhaustion

theorem openSlot_occupied (call : Call) (r : RequestInfo) (h : Occupied r)
    (hc : r.sud = call.sud ∨ canClaim call r = true) : Occupied (openSlot call r).2 := by
  unfold openSlot
  split
  · exact h
  · next hne =>
    have hclaim := hc.resolve_left hne
    have hocc : call.requestType ≠ 0 ∨ call.sud ≠ none := by
      by_contra hnone
      simp only [not_or, not_not] at hnone
      simp only [canClaim, hnone.1, inputUart, Bool.or_eq_true, Bool.and_eq_true,
        beq_iff_eq] at hclaim
      obtain ⟨hsud, -⟩ | ⟨huart, -⟩ := hclaim
      · exact hne (hsud.trans hnone.2.symm)
      · cases huart
    unfold claimSlot
    split
    · exact hocc
    · exact hocc

theorem storeLoop_key (headerLgth : Nat) (check : Ret) (r : RequestInfo) (cs : List UInt8) :
    keyOf (storeLoop headerLgth check r cs).2 = keyOf r := by
  induction cs generalizing r with
  | nil => rfl
  | cons c cs ih =>
    rw [storeLoop]
    cases r.data with
    | none => rfl
    | some b =>
      dsimp only
      split
      · split
        · rfl
        · exact ih (storeAt r b c)
      · rfl

theorem growData_key (growOk : Bool) (r : RequestInfo) (lgth : Nat) :
    keyOf (growData growOk r lgth).2 = keyOf r := by
  unfold growData
  split
  · dsimp only
    split
    · rfl
    · rfl
  · rfl

theorem useSlot_key (headerLgth : Nat) (call : Call) (r : RequestInfo) :
    keyOf (useSlot headerLgth call r).2 = keyOf (openSlot call r).2 := by
  obtain ⟨e, -, h⟩ | ⟨-, -, h⟩ | ⟨-, -, e, -, h⟩ | ⟨-, -, -, h⟩ := useSlot_cases headerLgth call r
  · rw [h]
  · rw [h]
  · rw [h, growData_key]
  · rw [h, storeLoop_key, growData_key]

theorem occupied_of_key (r r' : RequestInfo) (h : keyOf r' = keyOf r) :
    Occupied r' ↔ Occupied r := by
  obtain ⟨htype, hsud⟩ := Prod.mk.inj h
  rw [Occupied, Occupied, htype, hsud]

theorem addRequestData_occupied (headerLgth : Nat) (call : Call) (s : Requests)
    (i : Fin maxRequests) (h : Occupied (s i)) :
    Occupied ((addRequestData headerLgth call s).2 i) := by
  unfold addRequestData
  cases hfind : findSlot call s with
  | none => exact h
  | some j =>
    dsimp only
    by_cases hij : i = j
    · subst hij
      rw [Function.update_self, occupied_of_key _ _ (useSlot_key headerLgth call (s i))]
      apply openSlot_occupied call (s i) h
      have hp := List.find?_some hfind
      simpa using hp
    · rwa [Function.update_of_ne hij]

/-- No call of either function frees a slot. -/
theorem step_occupied (headerLgth : Nat) (t : Tracked) (op : Op) (hop : ∀ slot, op ≠ .reset slot)
    (i : Fin maxRequests) (h : Occupied (t.requests i)) :
    Occupied ((step headerLgth t op).requests i) := by
  unfold step
  split
  · exact h
  · cases op with
    | add call => exact addRequestData_occupied headerLgth call t.requests i h
    | reset slot => exact absurd rfl (hop slot)
    | delete requestType sud => exact h

theorem run_occupied (headerLgth : Nat) (t : Tracked) (ops : List Op)
    (hops : Along (step headerLgth) (fun _ op => ∀ slot, op ≠ .reset slot) t ops)
    (h : ∀ i, Occupied (t.requests i)) (i : Fin maxRequests) :
    Occupied ((run (step headerLgth) t ops).requests i) :=
  run_invariant (step headerLgth) _ (fun t => ∀ i, Occupied (t.requests i))
    (fun t op ht hop i => step_occupied headerLgth t op hop i (ht i)) t ops h hops i

theorem findSlot_full (call : Call) (s : Requests) (h : ∀ i, Occupied (s i))
    (hnew : ∀ i, (s i).sud ≠ call.sud) (hlgth : call.chunk.bytes ≠ []) :
    findSlot call s = none := by
  apply List.find?_eq_none.mpr
  intro i _
  have hlen : call.chunk.bytes.length ≠ 0 := fun h0 => hlgth (List.length_eq_zero_iff.mp h0)
  have hfree : ¬ ((s i).sud = none ∧ (s i).requestType = 0) := by
    rintro ⟨hsud, htype⟩
    exact (h i).elim (fun h0 => h0 htype) (fun h0 => h0 hsud)
  simp only [canClaim, Bool.or_eq_true, Bool.and_eq_true, beq_iff_eq, not_or]
  exact ⟨hnew i, hfree, fun hu => hlen hu.2⟩

/-- Once all slots are taken no later connection gets one, whatever has been deleted. -/
theorem run_exhausted (headerLgth : Nat) (t : Tracked) (ops : List Op) (call : Call)
    (hops : Along (step headerLgth) (fun _ op => ∀ slot, op ≠ .reset slot) t ops)
    (h : ∀ i, Occupied (t.requests i)) (hlgth : call.chunk.bytes ≠ [])
    (hnew : ∀ i, ((run (step headerLgth) t ops).requests i).sud ≠ call.sud) :
    addRequestData headerLgth call (run (step headerLgth) t ops).requests =
      (.error .tooManyRequests, (run (step headerLgth) t ops).requests) := by
  have hfull := findSlot_full call _ (run_occupied headerLgth t ops hops h) hnew hlgth
  rw [addRequestData, hfull]

end exhaustion

end NodeMcu.CompMsg.RequestSlots
