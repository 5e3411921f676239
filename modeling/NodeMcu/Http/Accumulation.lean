import NodeMcu.Http.Chunked
import NodeMcu.Lib.Run

namespace NodeMcu.Http.Accumulation

open NodeMcu.Lib.Run NodeMcu.Lib.Search NodeMcu.Lib.Text NodeMcu.Http.Response
open NodeMcu.Http.Chunked

/-! ## What the callback is called with -/

section Disconnect

variable {overflow : Int} {buffer : List UInt8} {d : Delivery}

/-- A chunked body is decoded within its bounds. -/
def Readable (buffer : List UInt8) : Prop :=
  isHttp buffer = true → isChunked buffer = true →
    ∃ i ∈ bodyAt buffer, ∃ decoded, Chunks (buffer.drop i) decoded

/-- An empty response, as the callback reads it. -/
structure Empty (d : Delivery) : Prop where
  body : cString d.body = []
  status : d.status = -1
  full : cString d.full = []

theorem head_of_empty {str : List UInt8} (hne : str ≠ []) (h : cString str = []) :
    str.head? = some 0 := by
  obtain ⟨c, str, rfl⟩ := List.exists_cons_of_ne_nil hne
  by_contra hc
  have hkept : (c != 0) = true := bne_iff_ne.mpr fun h => hc (congrArg some h)
  rw [cString, List.takeWhile_cons_of_pos (p := (· != 0)) hkept] at h
  cases h

theorem disconnect_marked (h : buffer.head? = some 0) :
    ∃ d, httpDisconnectCallback overflow buffer = .ok d ∧ Empty d := by
  refine ⟨_, if_pos h, rfl, rfl, ?_⟩
  obtain ⟨rest, rfl⟩ := List.head?_eq_some_iff.mp h
  rfl

theorem decodeBody_iff {status : Int} :
    (∃ d, decodeBody status buffer = .ok d) ↔
      (isChunked buffer = true →
        ∃ i ∈ bodyAt buffer, ∃ decoded, Chunks (buffer.drop i) decoded) := by
  rw [decodeBody]
  by_cases hchunked : isChunked buffer = true
  · cases hbody : bodyAt buffer with
    | none =>
      dsimp only
      rw [if_pos hchunked]
      refine iff_of_false (fun ⟨d, hd⟩ => ?_) fun h => ?_
      · cases hd
      · obtain ⟨i, hi, -⟩ := h hchunked
        cases hi
    | some i =>
      dsimp only
      rw [if_pos hchunked]
      have hdecode : (∃ r, httpChunkedDecode (buffer.drop i)
          (List.replicate (buffer.drop i).length 0) = .ok r) ↔ _ := httpChunkedDecode_iff
      constructor
      · intro h _
        refine ⟨i, rfl, hdecode.mp ?_⟩
        obtain ⟨d, hd⟩ := h
        cases hr : httpChunkedDecode (buffer.drop i) (List.replicate (buffer.drop i).length 0) with
        | error stop =>
          rw [hr] at hd
          cases hd
        | ok r => exact ⟨r, rfl⟩
      · intro h
        obtain ⟨i', hi', hchunks⟩ := h hchunked
        cases hi'
        obtain ⟨r, hr⟩ := hdecode.mpr hchunks
        rw [hr]
        exact ⟨_, rfl⟩
  · refine iff_of_true ?_ fun h => absurd h hchunked
    cases hbody : bodyAt buffer with
    | none => exact ⟨_, if_neg hchunked⟩
    | some i => exact ⟨_, if_neg hchunked⟩

/-- The callback is called if and only if no chunk leads out of the buffers. -/
theorem disconnect_iff (h : buffer.head? ≠ some 0) :
    (∃ d, httpDisconnectCallback overflow buffer = .ok d) ↔ Readable buffer := by
  rw [httpDisconnectCallback, if_neg h]
  by_cases hhttp : isHttp buffer = true
  · rw [if_pos hhttp, decodeBody_iff]
    exact ⟨fun h _ => h, fun h => h hhttp⟩
  · rw [if_neg hhttp]
    exact iff_of_true ⟨_, rfl⟩ fun h => absurd h hhttp

theorem decodeBody_head {status : Int} (hne : buffer ≠ [])
    (h : decodeBody status buffer = .ok d) : d.full.head? = buffer.head? := by
  rw [decodeBody] at h
  split at h
  · split at h
    · cases h
    · cases h
      rfl
  rename_i i hi
  dsimp only at h
  split at h
  · split at h
    · cases h
    · cases h
      -- the body begins behind the blank line
      obtain ⟨rest, -, rfl⟩ := Option.map_eq_some_iff.mp hi
      obtain ⟨c, buffer, rfl⟩ := List.exists_cons_of_ne_nil hne
      rfl
  · cases h
    rfl

/-- Nothing but a mark at its beginning makes a response empty. -/
theorem disconnect_head (hne : buffer ≠ [])
    (h : httpDisconnectCallback overflow buffer = .ok d) : d.full.head? = buffer.head? := by
  rw [httpDisconnectCallback] at h
  split at h
  · cases h
    rfl
  split at h
  · exact decodeBody_head hne h
  · cases h
    rfl

end Disconnect

/-! ## What is received -/

/-- The buffer at the end of a connection. -/
def received (segments : List Segment) : List UInt8 :=
  run httpReceiveCallback initialBuffer segments

def joined (segments : List Segment) : List UInt8 := segments.flatMap Segment.buf

/-- A segment that an empty buffer grows by. -/
def Stored (s : Segment) : Prop :=
  s.buf ≠ [] ∧ s.malloc = true ∧ s.buf.length + 1 ≤ bufferSizeMax

instance (s : Segment) : Decidable (Stored s) :=
  inferInstanceAs (Decidable (s.buf ≠ [] ∧ s.malloc = true ∧ s.buf.length + 1 ≤ bufferSizeMax))

/-- Behind a text, some segment is lost: there is no memory for it, or all of them are too long. -/
def Lost (text : List UInt8) (late : List Segment) : Prop :=
  (∃ s ∈ late, s.malloc = false) ∨ bufferSizeMax < text.length + (joined late).length + 1

section Receive

variable {text : List UInt8} {s : Segment}

theorem receive_fits (hfits : text.length + s.buf.length + 1 ≤ bufferSizeMax)
    (hmalloc : s.malloc = true) :
    httpReceiveCallback (text ++ [0]) s = text ++ s.buf ++ [0] := by
  rw [httpReceiveCallback, List.length_append, List.length_singleton, Nat.add_sub_cancel,
    List.take_left]
  refine if_neg ?_
  rw [hmalloc]
  rintro (h | h)
  · omega
  · cases h

theorem receive_lost (h : bufferSizeMax < text.length + s.buf.length + 1 ∨ s.malloc = false) :
    httpReceiveCallback (text ++ [0]) s = (text ++ [0]).set 0 0 := by
  rw [httpReceiveCallback, List.length_append, List.length_singleton]
  exact if_pos (h.imp_left fun h => by omega)

/-- Before a segment is stored, a lost one leaves no mark. -/
theorem run_early (early : List Segment) (h : ∀ s ∈ early, ¬Stored s) :
    received early = initialBuffer := by
  induction early with
  | nil => rfl
  | cons s early ih =>
    have hs := h s List.mem_cons_self
    have hstep : httpReceiveCallback initialBuffer s = initialBuffer := by
      by_cases hlost : bufferSizeMax < ([] : List UInt8).length + s.buf.length + 1 ∨
          s.malloc = false
      · exact receive_lost hlost
      · rw [not_or, Nat.not_lt, Bool.not_eq_false] at hlost
        have hempty : s.buf = [] := by
          by_contra hne
          refine hs ⟨hne, hlost.2, ?_⟩
          rw [List.length_nil, Nat.zero_add] at hlost
          exact hlost.1
        have hfits := receive_fits hlost.1 hlost.2
        rwa [hempty] at hfits
    rw [received, run_cons, hstep]
    exact ih fun s hs => h s (List.mem_cons_of_mem _ hs)

/-- A buffer that holds more than its end, and begins with the mark. -/
structure Marked (buffer : List UInt8) : Prop where
  mark : buffer.head? = some 0
  long : 2 ≤ buffer.length

theorem marked_set (htext : text ≠ []) : Marked ((text ++ [0]).set 0 0) := by
  obtain ⟨c, text, rfl⟩ := List.exists_cons_of_ne_nil htext
  refine ⟨rfl, ?_⟩
  rw [List.length_set, List.length_append, List.length_cons, List.length_singleton]
  omega

theorem Marked.receive {buffer : List UInt8} (h : Marked buffer) (s : Segment) :
    Marked (httpReceiveCallback buffer s) := by
  obtain ⟨c, buffer, rfl⟩ := List.exists_cons_of_ne_nil (List.ne_nil_of_length_pos
    (Nat.lt_of_lt_of_le (by decide) h.long))
  obtain rfl := Option.some.inj h.mark
  have hlong := h.long
  rw [List.length_cons] at hlong
  rw [httpReceiveCallback]
  split
  · exact ⟨rfl, h.long⟩
  · obtain ⟨x, buffer, rfl⟩ := List.exists_cons_of_ne_nil (l := buffer)
      (List.ne_nil_of_length_pos (by omega))
    refine ⟨rfl, ?_⟩
    rw [List.length_append, List.length_append, List.length_take, List.length_singleton,
      List.length_cons, List.length_cons]
    omega

/-- Behind a stored text, segments follow it as long as none is lost, and a lost one leaves its
mark for good. -/
theorem run_late (late : List Segment) (htext : text ≠ [])
    (hfits : text.length + 1 ≤ bufferSizeMax) :
    (¬Lost text late → run httpReceiveCallback (text ++ [0]) late = text ++ joined late ++ [0]) ∧
      (Lost text late → Marked (run httpReceiveCallback (text ++ [0]) late)) := by
  induction late generalizing text with
  | nil =>
    refine ⟨fun _ => by rw [joined, List.flatMap_nil, List.append_nil]; rfl, ?_⟩
    rintro (⟨s, hs, -⟩ | hlong)
    · cases hs
    · rw [joined, List.flatMap_nil, List.length_nil] at hlong
      omega
  | cons s late ih =>
    have hjoined : joined (s :: late) = s.buf ++ joined late := List.flatMap_cons
    rw [run_cons]
    by_cases hlost : bufferSizeMax < text.length + s.buf.length + 1 ∨ s.malloc = false
    · have hall : Lost text (s :: late) := by
        obtain hlong | hmalloc := hlost
        · refine .inr ?_
          rw [hjoined, List.length_append]
          omega
        · exact .inl ⟨s, List.mem_cons_self, hmalloc⟩
      rw [receive_lost hlost]
      exact ⟨fun h => absurd hall h, fun _ =>
        preserved httpReceiveCallback Marked (fun _ s h => h.receive s) _ late (marked_set htext)⟩
    · rw [not_or, Nat.not_lt, Bool.not_eq_false] at hlost
      have hiff : Lost text (s :: late) ↔ Lost (text ++ s.buf) late := by
        rw [Lost, Lost, hjoined, List.length_append, List.length_append, ← Nat.add_assoc]
        refine or_congr_left ?_
        rw [List.exists_mem_cons_iff, hlost.2]
        exact or_iff_right (by decide)
      have hlength : (text ++ s.buf).length + 1 ≤ bufferSizeMax := by
        rw [List.length_append]
        exact hlost.1
      have hne : text ++ s.buf ≠ [] := List.append_ne_nil_of_left_ne_nil htext _
      rw [receive_fits hlost.1 hlost.2, hiff, hjoined, ← List.append_assoc text]
      exact ih hne hlength

end Receive

/-! ## What is delivered -/

/-- The callback is called, with what the segments make up or with an empty response. -/
def Delivers (overflow : Int) (segments : List Segment) : Prop :=
  ∃ d, httpDisconnectCallback overflow (received segments) = .ok d ∧
    (received segments = joined segments ++ [0] ∨ Empty d)

/-- From the first segment on that is stored, a response is empty or loses a segment, or it is
complete and its chunks are read within its bounds. -/
def Follows (early : List Segment) (first : Segment) (late : List Segment) : Prop :=
  first.buf.head? = some 0 ∨ Lost first.buf late ∨
    (∀ s ∈ early, s.buf = []) ∧ Readable (joined (early ++ first :: late) ++ [0])

section Delivery

variable {overflow : Int} {segments early late : List Segment} {first : Segment}

theorem delivers_marked (h : (received segments).head? = some 0) : Delivers overflow segments := by
  obtain ⟨d, hd, hempty⟩ : ∃ d, httpDisconnectCallback overflow (received segments) = .ok d ∧
    Empty d := disconnect_marked h
  exact ⟨d, hd, .inr hempty⟩

theorem delivers_none (h : ∀ s ∈ segments, ¬Stored s) : Delivers overflow segments := by
  refine delivers_marked ?_
  rw [run_early segments h]
  rfl

/-- Without a mark, what is stored is the response or a part of it. -/
theorem delivers_unmarked (hmark : (received segments).head? ≠ some 0)
    (hne : received segments ≠ []) : Delivers overflow segments ↔
      received segments = joined segments ++ [0] ∧ Readable (received segments) := by
  have hcalled : (∃ d, httpDisconnectCallback overflow (received segments) = .ok d) ↔ _ :=
    disconnect_iff hmark
  rw [← hcalled]
  constructor
  · rintro ⟨d, hd, hjoined | hempty⟩
    · exact ⟨hjoined, d, hd⟩
    · have hhead := disconnect_head hne hd
      have hfull : d.full ≠ [] := by
        intro hnil
        rw [hnil] at hhead
        exact hne (List.head?_eq_none_iff.mp hhead.symm)
      exact absurd (hhead.symm.trans (head_of_empty hfull hempty.full)) hmark
  · rintro ⟨hjoined, d, hd⟩
    exact ⟨d, hd, .inl hjoined⟩

theorem received_first (late : List Segment) (hearly : ∀ s ∈ early, ¬Stored s)
    (hfirst : Stored first) :
    received (early ++ first :: late) = run httpReceiveCallback (first.buf ++ [0]) late := by
  have hfits : ([] : List UInt8).length + first.buf.length + 1 ≤ bufferSizeMax := by
    rw [List.length_nil, Nat.zero_add]
    exact hfirst.2.2
  rw [received, run_append, ← received, run_early early hearly, run_cons]
  exact congrArg (run httpReceiveCallback · late) (receive_fits hfits hfirst.2.1)

theorem delivers_first (hearly : ∀ s ∈ early, ¬Stored s) (hfirst : Stored first) :
    Delivers overflow (early ++ first :: late) ↔ Follows early first late := by
  have hreceived := received_first late hearly hfirst
  obtain ⟨hkept, hmarked⟩ := run_late late hfirst.1 hfirst.2.2
  by_cases hlost : Lost first.buf late
  · refine iff_of_true (delivers_marked ?_) (.inr (.inl hlost))
    rw [hreceived]
    exact (hmarked hlost).mark
  rw [hkept hlost] at hreceived
  have hhead : (received (early ++ first :: late)).head? = first.buf.head? := by
    obtain ⟨c, text, htext⟩ := List.exists_cons_of_ne_nil hfirst.1
    rw [hreceived, htext]
    rfl
  by_cases hmark : first.buf.head? = some 0
  · exact iff_of_true (delivers_marked (hhead.trans hmark)) (.inl hmark)
  have hne : received (early ++ first :: late) ≠ [] := by
    rw [hreceived]
    exact List.append_ne_nil_of_right_ne_nil _ (List.cons_ne_nil _ _)
  have hjoined : joined (early ++ first :: late) =
      joined early ++ (first.buf ++ joined late) := by
    rw [joined, List.flatMap_append, List.flatMap_cons]
    rfl
  have hexact : received (early ++ first :: late) = joined (early ++ first :: late) ++ [0] ↔
      ∀ s ∈ early, s.buf = [] := by
    rw [hreceived, hjoined, List.append_left_inj, List.self_eq_append_left]
    exact List.flatMap_eq_nil_iff
  rw [delivers_unmarked (hhead ▸ hmark) hne, Follows, or_iff_right hmark, or_iff_right hlost,
    hexact]
  refine and_congr_right fun hall => ?_
  rw [hexact.mpr hall]

end Delivery

/-- A response is delivered as it was received or not at all, if and only if no segment is stored
or the first one that is stored keeps to that. -/
theorem accumulation_iff (overflow : Int) (segments : List Segment) :
    Delivers overflow segments ↔
      ∀ early first late, segments = early ++ first :: late → (∀ s ∈ early, ¬Stored s) →
        Stored first → Follows early first late := by
  constructor
  · rintro h early first late rfl hearly hfirst
    exact (delivers_first hearly hfirst).mp h
  · intro h
    cases hfind : segments.find? (fun s => decide (Stored s)) with
    | none =>
      rw [List.find?_eq_none] at hfind
      exact delivers_none fun s hs hstored => hfind s hs (decide_eq_true hstored)
    | some first =>
      obtain ⟨hfirst, early, late, rfl, hearly⟩ := List.find?_eq_some_iff_append.mp hfind
      have hfirst := of_decide_eq_true hfirst
      have hearly : ∀ s ∈ early, ¬Stored s := fun s hs hstored => by
        have hnot := hearly s hs
        rw [decide_eq_true hstored] at hnot
        cases hnot
      exact (delivers_first hearly hfirst).mpr (h early first late rfl hearly hfirst)

/-- There is no memory for the first segment, and the second one passes for the response. -/
def lostStart : List Segment :=
  [⟨bytesOf "HTTP/1.1 100 Continue\r\n\r\n", false⟩, ⟨bytesOf "HTTP/1.1 200 OK\r\n\r\nb", true⟩]

theorem lostStart_not_delivers : ¬Delivers 0 lostStart := by
  have hdelivery : httpDisconnectCallback 0 (received lostStart) =
      .ok ⟨bytesOf "b" ++ [0], 200, bytesOf "HTTP/1.1 200 OK\r\n\r\nb" ++ [0]⟩ := by
    decide +kernel
  have hpart : received lostStart ≠ joined lostStart ++ [0] := by decide +kernel
  rintro ⟨d, hd, hjoined | hempty⟩
  · exact hpart hjoined
  · cases hdelivery.symm.trans hd
    cases hempty.status

end NodeMcu.Http.Accumulation
