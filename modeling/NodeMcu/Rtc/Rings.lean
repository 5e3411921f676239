import NodeMcu.Rtc.Location

namespace NodeMcu.Rtc.Rings

open NodeMcu.Lib.Run NodeMcu.Lib.Ring
open NodeMcu.Rtc.Fifo NodeMcu.Rtc.Slots NodeMcu.Rtc.Tags NodeMcu.Rtc.Location

/-! ## What a FIFO keeps -/

/-- An operation without a look at the magic number. -/
def perform (s : RtcMem) : Op → RtcMem
  | .put x => storeSample x s
  | .pop => (popSample s).2
  | .peek offset => (peekSample offset s).2
  | .drop num => dropSamples num s

/-- Head and tail lie in the ring behind the tags, the tail so many entries behind the head as the
count says. -/
structure Turned (first last tagcount : Nat) (s : RtcMem) : Prop where
  le_head : first + tagcount ≤ (getHead s).toNat
  head_lt : (getHead s).toNat < last
  le_tail : first + tagcount ≤ (getTail s).toNat
  tail_lt : (getTail s).toNat < last
  count : (getCount s).toNat ≤ last - first - tagcount
  tail : (getTail s).toNat =
    (next (first + tagcount) last)^[(getCount s).toNat] (getHead s).toNat

/-- A peek gives what the last of one more pops gives and changes nothing, and a drop leaves what
as many pops leave. -/
structure Agrees (s : RtcMem) : Prop where
  peek : ∀ k : UInt32, (peekSample k s).1 = (popSample (pops k.toNat s)).1 ∧
    (peekSample k s).2.mem = s.mem
  drop : ∀ k : UInt32, (dropSamples k s).mem = (pops (min k.toNat (getCount s).toNat) s).mem

/-! ## The entries in their ring -/

section InRing

variable {r : Piece} {s : RtcMem}

theorem placed_turned (h : Placed r s) : Turned r.first r.last r.tagcount s := by
  have htail : (getTail s).toNat = slot r.lo r.last (s.mem 18).toNat (s.mem 16).toNat := h.tail
  refine ⟨h.le_head, h.head_lt, ?_, ?_, ?_, ?_⟩
  · rw [htail]
    exact le_slot h.le_head h.head_lt
  · rw [htail]
    exact slot_lt h.le_head h.head_lt h.count
  · rw [Nat.sub_sub]
    exact h.count
  · rw [htail]
    exact (iterate_next h.le_head h.head_lt h.count).symm

theorem inRing_agrees (h : InRing r s) : Agrees s where
  peek k :=
    have ⟨hfst, hmem, _⟩ := peekSample_pops (guard_inRing r) k h
    ⟨hfst, hmem⟩
  drop k := (dropSamples_pops (guard_inRing r) k h).1

theorem perform_inRing (h : InRing r s) (op : Op) : InRing r (perform s op) := by
  cases op with
  | put x => exact (storeSample_guarded (guard_inRing r) x h).1
  | pop => exact (popSample_guarded (guard_inRing r) h).1
  | peek offset => exact (peekSample_guarded (guard_inRing r) offset h).1
  | drop num => exact (dropSamples_guarded (guard_inRing r) num h).1

theorem init_inRing (r : Piece) (s : RtcMem) : InRing r
    (init (UInt32.ofNat r.first) (UInt32.ofNat r.last) (UInt32.ofNat r.tagcount) s) := by
  have hloc : Located r (putLoc (UInt32.ofNat r.first) (UInt32.ofNat r.last)
      (UInt32.ofNat r.tagcount) s) := by
    rw [Located, putLoc, mem_write]
    exact Function.update_self _ _ _
  obtain ⟨hplaced, hentries⟩ := clearContent_placed hloc
  exact ⟨hplaced, fun e he => by rw [init, hentries] at he; cases he⟩

end InRing

/-! ## Runs -/

def someSample : Sample := ⟨7, 1, 0, 0x61⟩

/-- After `rtc_fifo_init` with a location that fits its word and leaves the control block out,
every operation keeps the ring, and peeks and drops agree with pops. -/
theorem run_turned (first last tagcount : UInt32) (s : RtcMem) (ops : List Op)
    (hroom : first.toNat + tagcount.toNat < last.toNat) (hfits : last.toNat < 256)
    (hclear : last.toNat ≤ 15 ∨ 21 ≤ first.toNat) :
    Turned first.toNat last.toNat tagcount.toNat
        (run perform (init first last tagcount s) ops) ∧
      Agrees (run perform (init first last tagcount s) ops) := by
  let r : Piece := ⟨first.toNat, last.toNat, tagcount.toNat, hroom, hfits, hclear⟩
  have hinit := init_inRing r s
  simp only [r, UInt32.ofNat_toNat] at hinit
  have h := preserved perform (InRing r) (fun _ op h => perform_inRing h op) _ ops hinit
  exact ⟨placed_turned h.placed, inRing_agrees h⟩

/-- Three samples in a ring of two entries, and two of them popped. -/
theorem run_turned_small :
    Turned 32 35 1 (run perform (init 32 35 1 ⟨fun _ => 0, []⟩)
      [.put someSample, .put someSample, .put someSample, .peek 1, .drop 1, .pop]) ∧
    Agrees (run perform (init 32 35 1 ⟨fun _ => 0, []⟩)
      [.put someSample, .put someSample, .put someSample, .peek 1, .drop 1, .pop]) :=
  run_turned 32 35 1 _ _ (by decide) (by decide) (by decide)

/-- An end of 256 does not fit into the word of the location, and a ring that contains the word of
the location is moved by a sample. -/
theorem init_not_turned :
    ¬Turned 100 256 5 (run perform (init 100 256 5 ⟨fun _ => 0, []⟩) [.put someSample]) ∧
    ¬Turned 14 30 1 (run perform (init 14 30 1 ⟨fun _ => 0, []⟩) [.put someSample]) :=
  ⟨fun h => absurd h.tail (by decide), fun h => absurd h.le_tail (by decide)⟩

end NodeMcu.Rtc.Rings
