import NodeMcu.Ota.Upgrade

namespace NodeMcu.Ota.HttpHeader

open NodeMcu.Lib.Search NodeMcu.Lib.Text NodeMcu.Ota.Upgrade

/-! ## Headers -/

/-- A header is a text that ends with the first blank line in it. -/
structure Header where
  bytes : List UInt8
  text : ∀ c ∈ bytes, c ≠ 0
  blank : FirstAt blankLine bytes (bytes.length - 4)

/-- The status of an answer, behind the version of the protocol. -/
def status (bytes : List UInt8) : List UInt8 := (bytes.drop 9).take 3

/-- The text behind the first name of the length, up to the end of its line. -/
def LengthText (bytes text : List UInt8) : Prop :=
  ∃ i, FirstAt contentLength bytes i ∧
    ∃ m, FirstAt lineEnd (bytes.drop (i + 16)) m ∧ text = (bytes.drop (i + 16)).take m

theorem contentLength_length : contentLength.length = 16 := by decide

theorem blankLine_length : blankLine.length = 4 := by decide

theorem lineEnd_length : lineEnd.length = 2 := by decide

/-! ## What the search finds -/

theorem lineOf_eq {len : List UInt8} {m : Nat} (hm : m ≤ len.length) (h : FirstAt lineEnd len m) :
    lineOf len = len.take m := by
  rw [lineOf, search_of_firstAt hm h, Option.getD_some, List.length_drop, Nat.sub_sub_self hm]

/-- A valid answer has the status 200, the name of the length, and a blank line behind. -/
theorem httpHeader_eq_some_iff {pusrdata len : List UInt8} {dataAt : Nat} :
    httpHeader pusrdata = some (dataAt, len) ↔
      ∃ i k, i ≤ (cString pusrdata).length ∧ FirstAt contentLength (cString pusrdata) i ∧
        k ≤ ((cString pusrdata).drop i).length ∧
        FirstAt blankLine ((cString pusrdata).drop i) k ∧
        status pusrdata = bytesOf "200" ∧ dataAt = i + k + 4 ∧
        len = lineOf ((cString pusrdata).drop (i + 16)) := by
  have hindex : ∀ {i k : Nat}, i ≤ (cString pusrdata).length →
      k ≤ ((cString pusrdata).drop i).length →
      (cString pusrdata).length - (((cString pusrdata).drop i).drop k).length + 4 = i + k + 4 := by
    intro i k hi hk
    rw [List.length_drop] at hk
    rw [List.length_drop, List.length_drop]
    omega
  constructor
  · intro h
    rw [httpHeader] at h
    split at h
    · cases h
    · rename_i ptrLen hlen
      obtain ⟨i, hi, hname, rfl⟩ := search_eq_some_iff.mp hlen
      split at h
      · cases h
      · rename_i ptrData hdata
        obtain ⟨k, hk, hblank, rfl⟩ := search_eq_some_iff.mp hdata
        rw [Option.ite_none_right_eq_some, Option.some.injEq, Prod.mk.injEq, hindex hi hk,
          List.drop_drop] at h
        obtain ⟨hok, hat, htext⟩ := h
        exact ⟨i, k, hi, hname, hk, hblank, hok, hat.symm, htext.symm⟩
  · rintro ⟨i, k, hi, hname, hk, hblank, hok, rfl, rfl⟩
    rw [httpHeader]
    simp only [search_of_firstAt hi hname, search_of_firstAt hk hblank, hindex hi hk]
    rw [List.drop_drop]
    exact if_pos hok

/-- There is no carriage return in the name of the length. -/
theorem blankLine_behind {text : List UInt8} {i k : Nat} (hname : StandsAt contentLength text i)
    (hblank : StandsAt blankLine text (i + k)) : 16 ≤ k := by
  by_contra hk
  obtain ⟨x, hx⟩ := hname
  obtain ⟨y, hy⟩ := hblank
  have hget : ∀ j, j < 16 → contentLength[j]? ≠ some 13 := by decide
  refine hget k (by omega) ?_
  have hk' : k < contentLength.length := by
    rw [contentLength_length]
    omega
  rw [← List.getElem?_append_left hk', hx, List.getElem?_drop, ← Nat.add_zero (i + k),
    ← List.getElem?_drop, ← hy]
  rfl

/-- Behind the name of the length the blank line brings a line end. -/
theorem exists_lineEnd {text : List UInt8} {i k : Nat}
    (hname : StandsAt contentLength text i) (hblank : StandsAt blankLine text (i + k)) :
    ∃ m, m + 16 ≤ k ∧ FirstAt lineEnd (text.drop (i + 16)) m := by
  have hk := blankLine_behind hname hblank
  have hstands : StandsAt lineEnd (text.drop (i + 16)) (k - 16) := by
    rw [standsAt_drop, show i + 16 + (k - 16) = i + k by omega]
    exact List.IsPrefix.trans (by decide) hblank
  obtain ⟨m, hm, hline⟩ := exists_firstAt hstands
  exact ⟨m, by omega, hline⟩

section Header

variable (h : Header)

theorem length_pos : 4 ≤ h.bytes.length := by
  have hlen := h.blank.stands.length_le
  rw [blankLine_length] at hlen
  omega

theorem cString_append (x : List UInt8) : cString (h.bytes ++ x) = h.bytes ++ cString x := by
  rw [cString, cString, List.takeWhile_append_of_pos]
  exact fun c hc => by simpa using h.text c hc

/-- The blank line of a header is the first one, whatever comes behind it. -/
theorem blank_append (x : List UInt8) :
    FirstAt blankLine (h.bytes ++ x) (h.bytes.length - 4) := by
  have hlen := length_pos h
  rw [firstAt_append x (by rw [blankLine_length]; omega)]
  exact h.blank

/-- Of a header that is there as a whole the code finds the end and the text of the length. -/
theorem httpHeader_whole (x : List UInt8) {text : List UInt8} :
    httpHeader (h.bytes ++ x) = some (h.bytes.length, text) ↔
      status (h.bytes ++ x) = bytesOf "200" ∧ LengthText h.bytes text := by
  have hlen := length_pos h
  have hblank := blank_append h (cString x)
  rw [httpHeader_eq_some_iff, cString_append]
  constructor
  · rintro ⟨i, k, hi, hname, hk, hfirst, hok, hat, rfl⟩
    have hend : StandsAt blankLine (h.bytes ++ cString x) (i + k) :=
      (standsAt_drop i).mp hfirst.stands
    obtain ⟨m, hm, hline⟩ := exists_lineEnd hname.stands hend
    have hdrop : (h.bytes ++ cString x).drop (i + 16) = h.bytes.drop (i + 16) ++ cString x :=
      List.drop_append_of_le_length (by omega)
    have hrest : m + 2 ≤ (h.bytes.drop (i + 16)).length := by
      rw [List.length_drop]
      omega
    rw [hdrop] at hline
    refine ⟨hok, i, (firstAt_append _ (by rw [contentLength_length]; omega)).mp hname, m,
      (firstAt_append _ (by rw [lineEnd_length]; exact hrest)).mp hline, ?_⟩
    rw [hdrop, lineOf_eq (by rw [List.length_append]; omega) hline,
      List.take_append_of_le_length (by omega)]
  · rintro ⟨hok, i, hname, m, hline, rfl⟩
    have hi := hname.stands.length_le
    rw [contentLength_length] at hi
    have hm := hline.stands.length_le
    rw [lineEnd_length, List.length_drop] at hm
    have hdrop : (h.bytes ++ cString x).drop (i + 16) = h.bytes.drop (i + 16) ++ cString x :=
      List.drop_append_of_le_length (by omega)
    have hrest : m + 2 ≤ (h.bytes.drop (i + 16)).length := by
      rw [List.length_drop]
      omega
    have hline' := (firstAt_append (cString x) (by rw [lineEnd_length]; exact hrest)).mpr hline
    refine ⟨i, h.bytes.length - 4 - i, by rw [List.length_append]; omega,
      (firstAt_append _ (by rw [contentLength_length]; omega)).mpr hname,
      by rw [List.length_drop, List.length_append]; omega, ⟨?_, fun j hj hs => ?_⟩, hok, by omega,
      ?_⟩
    · rw [standsAt_drop, show i + (h.bytes.length - 4 - i) = h.bytes.length - 4 by omega]
      exact hblank.stands
    · exact hblank.first (i + j) (by omega) ((standsAt_drop i).mp hs)
    · rw [hdrop, lineOf_eq (by rw [List.length_append]; omega) hline',
        List.take_append_of_le_length (by omega)]

/-- What the code takes for the end of the header lies in the segment, and not in front of the
end. -/
theorem httpHeader_behind {pusrdata x len : List UInt8} {dataAt : Nat}
    (hpart : pusrdata <+: h.bytes ++ x) (hr : httpHeader pusrdata = some (dataAt, len)) :
    h.bytes.length ≤ dataAt ∧ dataAt ≤ pusrdata.length := by
  obtain ⟨i, k, hi, -, hk, hblank, -, rfl, -⟩ := httpHeader_eq_some_iff.mp hr
  have htext : cString pusrdata <+: pusrdata := List.takeWhile_prefix _
  have htextLen := htext.length_le
  obtain ⟨y, hy⟩ := htext.trans hpart
  have hlen := hblank.stands.length_le
  rw [blankLine_length, List.length_drop] at hlen
  rw [List.length_drop] at hk
  refine ⟨?_, by omega⟩
  by_contra hlt
  refine (blank_append h x).first (i + k) (by omega) ?_
  rw [← hy, standsAt_append y (by rw [blankLine_length]; omega), ← standsAt_drop]
  exact hblank.stands

end Header

/-- Only an answer with the status 200 is valid, and its header is not empty. -/
theorem httpHeader_status {pusrdata len : List UInt8} {dataAt : Nat}
    (hr : httpHeader pusrdata = some (dataAt, len)) :
    status pusrdata = bytesOf "200" ∧ 0 < dataAt := by
  obtain ⟨i, k, -, -, -, -, hok, rfl, -⟩ := httpHeader_eq_some_iff.mp hr
  exact ⟨hok, by omega⟩

/-- A text with a status has it whatever comes behind. -/
theorem status_append {bytes : List UInt8} (h : status bytes = bytesOf "200") (x : List UInt8) :
    status (bytes ++ x) = status bytes := by
  have hlen := congrArg List.length h
  rw [status, List.length_take, List.length_drop, show (bytesOf "200").length = 3 by decide] at hlen
  rw [status, status, List.drop_append_of_le_length (by omega),
    List.take_append_of_le_length (by rw [List.length_drop]; omega)]

end NodeMcu.Ota.HttpHeader
