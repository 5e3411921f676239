import NodeMcu.CompMsg.Request

namespace NodeMcu.CompMsg.Reassembly

open NodeMcu.Lib.Memory NodeMcu.Lib.Run
open NodeMcu.CompMsg.Codes NodeMcu.CompMsg.Identify NodeMcu.CompMsg.Request

/-- The slot holds the bytes received, in memory of its own. -/
structure Reassembled (r : RequestInfo) (received : List UInt8) : Prop where
  count : r.currIdx = received.length
  bytes : ∀ b, r.data = some b →
    read b.mem 0 received.length = received ∧ received.length ≤ b.cap
  empty : r.data = none → received = []

def Held (t : Tracked) : Prop := ∀ i, Reassembled (t.requests i) (t.received i)

/-- The memory of a slot after the check for free space. -/
def room (r : RequestInfo) (lgth : Nat) : Nat :=
  if r.currLgth < lgth then growLgth r lgth % 65536 else memLgth r.data

/-- Nothing ends the loop of `detectMsg` in front of the last byte. -/
def Uncut (headerLgth : Nat) (call : Call) (r : RequestInfo) : Prop :=
  (call.headerCheck = .ok ∨
    ¬(r.currIdx < headerLgth ∧ headerLgth < r.currIdx + call.chunk.bytes.length)) ∧
  ¬(r.currIdx < r.totalLgth ∧ r.totalLgth < r.currIdx + call.chunk.bytes.length)

/-- What a call finds in a slot that takes all its bytes. -/
structure AddFits (headerLgth : Nat) (call : Call) (r : RequestInfo) : Prop where
  dispatcher : r.requestDispatcher ≠ none
  claim : r.sud ≠ call.sud → call.zallocOk = true ∧ r.currIdx = 0
  memory : r.currLgth < call.chunk.bytes.length → call.growOk = true
  fits : r.currIdx + call.chunk.bytes.length ≤ room (openSlot call r).2 call.chunk.bytes.length
  uncut : Uncut headerLgth call (openSlot call r).2

def Fits (headerLgth : Nat) (t : Tracked) : Op → Prop
  | .add call => t.crashed = false → ∀ i, findSlot call t.requests = some i →
    AddFits headerLgth call (t.requests i)
  | _ => True

theorem storeAt_data (r : RequestInfo) (b : Block) (c : UInt8) :
    (storeAt r b c).data = some { b with mem := write b.mem r.currIdx [c] } := rfl

/-- Whichever branch the last byte takes, it is stored. -/
theorem storeLoop_last (headerLgth : Nat) (check : Ret) (r : RequestInfo) (c : UInt8) (b : Block)
    (hb : r.data = some b) :
    (storeLoop headerLgth check r [c]).2.currIdx = (storeAt r b c).currIdx ∧
      (storeLoop headerLgth check r [c]).2.data = (storeAt r b c).data := by
  rw [storeLoop, hb]
  dsimp only
  split
  · split
    · exact ⟨rfl, rfl⟩
    · exact ⟨rfl, rfl⟩
  · exact ⟨rfl, rfl⟩

/-- The loop goes on behind a byte that neither ends a header that fails nor the message. -/
theorem storeLoop_next (headerLgth : Nat) (check : Ret) (r : RequestInfo) (c : UInt8)
    (cs : List UInt8) (b : Block) (hb : r.data = some b)
    (hcheck : (storeAt r b c).currIdx = headerLgth → check = .ok)
    (htotal : (storeAt r b c).currIdx ≠ r.totalLgth) :
    storeLoop headerLgth check r (c :: cs) = storeLoop headerLgth check (storeAt r b c) cs := by
  have hok : (if (storeAt r b c).currIdx = headerLgth then check else .ok) = .ok := by
    split
    · rename_i h
      exact hcheck h
    · rfl
  rw [storeLoop, hb]
  dsimp only
  rw [hok]
  dsimp only
  exact if_neg fun h => htotal h.1

theorem storeLoop_uncut (headerLgth : Nat) (check : Ret) (r : RequestInfo) (cs : List UInt8)
    (b : Block) (hb : r.data = some b) (hroom : r.currIdx + cs.length < 65536)
    (hcheck : check = .ok ∨ ¬(r.currIdx < headerLgth ∧ headerLgth < r.currIdx + cs.length))
    (htotal : ¬(r.currIdx < r.totalLgth ∧ r.totalLgth < r.currIdx + cs.length)) :
    (storeLoop headerLgth check r cs).2.currIdx = r.currIdx + cs.length ∧
      (storeLoop headerLgth check r cs).2.data =
        some { b with mem := write b.mem r.currIdx cs } := by
  induction cs generalizing r b with
  | nil => exact ⟨rfl, by rw [write_nil]; exact hb⟩
  | cons c cs ih =>
    rw [List.length_cons] at hroom hcheck htotal ⊢
    have hidx : (storeAt r b c).currIdx = r.currIdx + 1 := Nat.mod_eq_of_lt (by omega)
    have ht : (storeAt r b c).totalLgth = r.totalLgth := rfl
    cases cs with
    | nil =>
      obtain ⟨hi, hd⟩ := storeLoop_last headerLgth check r c b hb
      exact ⟨hi.trans hidx, hd⟩
    | cons c' cs =>
      rw [List.length_cons] at hroom hcheck htotal ⊢
      have hwrite : write (write b.mem r.currIdx [c]) ((r.currIdx + 1 : Nat) : Int) (c' :: cs) =
          write b.mem r.currIdx (c :: c' :: cs) := by
        have h := write_append b.mem r.currIdx [c] (c' :: cs)
        simpa using h
      have hrest := ih (storeAt r b c) _ (storeAt_data r b c)
        (by rw [hidx, List.length_cons]; omega)
        (hcheck.imp_right fun h hn => h ⟨by omega, by rw [List.length_cons] at hn; omega⟩)
        (fun hn => htotal ⟨by omega, by rw [List.length_cons] at hn; omega⟩)
      rw [hidx, List.length_cons] at hrest
      obtain ⟨hi, hd⟩ := hrest
      rw [storeLoop_next headerLgth check r c (c' :: cs) b hb
        (fun h => hcheck.resolve_right fun hn => hn ⟨by omega, by omega⟩) (by omega)]
      refine ⟨by omega, ?_⟩
      rw [hd]
      dsimp only
      rw [hwrite]

theorem openSlot_reassembled (call : Call) (r : RequestInfo) (received : List UInt8)
    (hr : Reassembled r received)
    (hc : r.sud ≠ call.sud → call.zallocOk = true ∧ r.currIdx = 0) :
    (openSlot call r).1 = .ok () ∧ Reassembled (openSlot call r).2 received ∧
      (openSlot call r).2.requestDispatcher = r.requestDispatcher ∧
      (openSlot call r).2.currLgth = r.currLgth := by
  unfold openSlot
  by_cases hs : r.sud = call.sud
  · rw [if_pos hs]
    exact ⟨rfl, hr, rfl, rfl⟩
  · obtain ⟨hz, h0⟩ := hc hs
    have hnil : received = [] := List.length_eq_zero_iff.mp (by rw [← hr.count, h0])
    subst hnil
    rw [if_neg hs, claimSlot, if_pos hz]
    exact ⟨rfl, ⟨h0, fun b _ => ⟨rfl, Nat.zero_le _⟩, fun _ => rfl⟩, rfl, rfl⟩

theorem growData_reassembled (growOk : Bool) (r : RequestInfo) (lgth : Nat) (received : List UInt8)
    (hr : Reassembled r received) (hg : r.currLgth < lgth → growOk = true)
    (hroom : received.length ≤ room r lgth) :
    (growData growOk r lgth).1 = .ok () ∧ Reassembled (growData growOk r lgth).2 received ∧
      (growData growOk r lgth).2.totalLgth = r.totalLgth ∧
      room r lgth = memLgth (growData growOk r lgth).2.data := by
  unfold growData room at *
  by_cases hlt : r.currLgth < lgth
  · rw [if_pos hlt] at hroom ⊢
    simp only [hlt, if_true, hg hlt]
    refine ⟨trivial, ⟨hr.count, ?_, fun h => absurd h (Option.some_ne_none _)⟩, trivial, ?_⟩
    · intro b hb
      cases hd : r.data with
      | none =>
        rw [hd] at hb
        rw [hr.empty hd]
        exact ⟨rfl, Nat.zero_le _⟩
      | some b0 =>
        rw [hd, Option.some.injEq] at hb
        subst hb
        exact ⟨(hr.bytes b0 hd).1, hroom⟩
    · cases r.data with
      | none => rfl
      | some b0 => rfl
  · simp only [hlt, if_false]
    exact ⟨trivial, hr, trivial, trivial⟩

theorem storeLoop_reassembled (headerLgth : Nat) (check : Ret) (r : RequestInfo)
    (cs received : List UInt8) (hr : Reassembled r received)
    (hroom : r.currIdx + cs.length ≤ memLgth r.data)
    (hcheck : check = .ok ∨ ¬(r.currIdx < headerLgth ∧ headerLgth < r.currIdx + cs.length))
    (htotal : ¬(r.currIdx < r.totalLgth ∧ r.totalLgth < r.currIdx + cs.length)) :
    Reassembled (storeLoop headerLgth check r cs).2 (received ++ cs) := by
  cases hd : r.data with
  | none =>
    rw [hd] at hroom
    have hnil : cs = [] := List.length_eq_zero_iff.mp (by rw [memLgth] at hroom; omega)
    rw [hnil, List.append_nil]
    exact hr
  | some b =>
    rw [hd] at hroom
    have hlt := b.cap_lt
    rw [memLgth] at hroom
    obtain ⟨hi, hs⟩ := storeLoop_uncut headerLgth check r cs b hd (by omega) hcheck htotal
    have hc := hr.count
    refine ⟨by rw [hi, List.length_append, hc], ?_, fun h => by rw [hs] at h; cases h⟩
    intro b' hb'
    rw [hs, Option.some.injEq] at hb'
    subst hb'
    rw [List.length_append, read_add, hc, Int.zero_add, read_write,
      read_write_before _ _ _ _ _ (by omega), (hr.bytes b hd).1]
    exact ⟨rfl, by dsimp only; omega⟩

theorem useSlot_reassembled (headerLgth : Nat) (call : Call) (r : RequestInfo)
    (received : List UInt8) (hr : Reassembled r received) (hf : AddFits headerLgth call r) :
    Reassembled (useSlot headerLgth call r).2 (received ++ call.chunk.bytes) := by
  obtain ⟨ho, hro, hd, hcl⟩ := openSlot_reassembled call r received hr hf.claim
  have hfits := hf.fits
  have hcount := hro.count
  have hcurr : r.currIdx = (openSlot call r).2.currIdx := hr.count.trans hcount.symm
  obtain ⟨hg, hrg, htg, hroom⟩ := growData_reassembled call.growOk (openSlot call r).2
    call.chunk.bytes.length received hro (by rw [hcl]; exact hf.memory) (by omega)
  have hcg := hrg.count
  have hloop := storeLoop_reassembled headerLgth call.headerCheck _ call.chunk.bytes received hrg
    (by rw [← hroom]; omega) (by rw [hcg, ← hcount]; exact hf.uncut.1)
    (by rw [hcg, htg, ← hcount]; exact hf.uncut.2)
  rw [useSlot_slot headerLgth call r ho (by rw [hd]; exact hf.dispatcher),
    detectMsg_grown headerLgth call _ hg]
  exact hloop

theorem apply_held (headerLgth : Nat) (t : Tracked) (op : Op) (ht : Held t)
    (hc : t.crashed = false) (hf : Fits headerLgth t op) : Held (apply headerLgth t op) := by
  cases op with
  | add call =>
    intro i
    cases hfind : findSlot call t.requests with
    | none =>
      simp only [apply, addRequestData, hfind]
      exact ht i
    | some j =>
      simp only [apply, addRequestData, hfind]
      by_cases hij : i = j
      · subst hij
        rw [Function.update_self, Function.update_self]
        exact useSlot_reassembled headerLgth call _ _ (ht i) (hf hc i hfind)
      · rw [Function.update_of_ne hij, Function.update_of_ne hij]
        exact ht i
  | reset slot =>
    intro i
    simp only [apply, resetRequest]
    by_cases hij : i = slot
    · subst hij
      rw [Function.update_self, Function.update_self]
      exact ⟨rfl, fun b hb => (nomatch hb), fun _ => rfl⟩
    · rw [Function.update_of_ne hij, Function.update_of_ne hij]
      exact ht i
  | delete requestType sud => exact ht

theorem step_held (headerLgth : Nat) (t : Tracked) (op : Op) (ht : Held t)
    (hf : Fits headerLgth t op) : Held (step headerLgth t op) := by
  unfold step
  cases hc : t.crashed with
  | true => exact ht
  | false => exact apply_held headerLgth t op ht hc hf

theorem start_held : Held start := fun _ => ⟨rfl, fun _ hb => (nomatch hb), fun _ => rfl⟩

/-- Input of the UART, with memory for everything. -/
def uartCall (chunk : Chunk) : Call := ⟨inputUart, none, chunk, true, true, .ok, .ok⟩

theorem uartCall_fits (headerLgth : Nat) (t : Tracked) (chunk : Chunk) (i : Fin maxRequests)
    (hi : findSlot (uartCall chunk) t.requests = some i)
    (hf : AddFits headerLgth (uartCall chunk) (t.requests i)) :
    Fits headerLgth t (.add (uartCall chunk)) := by
  intro _ j hj
  rw [hi, Option.some.injEq] at hj
  rw [← hj]
  exact hf

end NodeMcu.CompMsg.Reassembly
