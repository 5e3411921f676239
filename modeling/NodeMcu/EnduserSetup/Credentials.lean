import NodeMcu.Lib.Block
import NodeMcu.Lib.Search
import NodeMcu.Lib.Text

namespace NodeMcu.EnduserSetup.Credentials

open NodeMcu.Lib.Block NodeMcu.Lib.Search NodeMcu.Lib.Text

/-! ## The credentials in a request -/

/-- The value of a hexadecimal digit as the decoder computes it. -/
def digit (a : UInt8) : UInt8 :=
  let a := if 0x61 ≤ a then a - 0x20 else a
  if 0x41 ≤ a then a - 0x37 else a - 0x30

/-- A plus stands for a blank. -/
def unplus (c : UInt8) : UInt8 := if c = 0x2B then 0x20 else c

/-- The loop of the decoder. The end of the list is the zero behind the string. -/
def urldecodeLoop (srcLen dstLast : Nat) :
    List UInt8 → List UInt8 → Nat → Nat → Option (List UInt8 × Nat × Nat)
  | [], field, dst, i => some (field, dst, i)
  | c :: src, field, dst, i =>
    if i < srcLen ∧ dst < dstLast then
      match src with
      | a :: b :: rest =>
        if c = 0x25 ∧ isXDigit a = true ∧ isXDigit b = true then
          (put field dst [16 * digit a + digit b]).bind fun field =>
            urldecodeLoop srcLen dstLast rest field (dst + 1) (i + 3)
        else (put field dst [unplus c]).bind fun field =>
          urldecodeLoop srcLen dstLast (a :: b :: rest) field (dst + 1) (i + 1)
      | src => (put field dst [unplus c]).bind fun field =>
          urldecodeLoop srcLen dstLast src field (dst + 1) (i + 1)
    else some (field, dst, i)

/-- The field with what was decoded, and whether input is left. `none` where a write leaves
the field. -/
def enduserSetupHttpUrldecode (field src : List UInt8) (srcLen : Nat) :
    Option (List UInt8 × Bool) :=
  (urldecodeLoop srcLen (field.length - 1) src field 0 0).bind fun (field, dst, i) =>
    (put field dst [0]).map fun field => (field, decide (i < srcLen))

/-- The index of the first of some bytes, if there is one. -/
def enduserSetupSrchStr (str srchStr : List UInt8) : Option Nat :=
  str.findIdx? fun c => srchStr.contains c

structure StationConfig where
  ssid : List UInt8
  password : List UInt8
deriving DecidableEq

/-- What the handler returns, and the configuration it posts. -/
structure Handled where
  ret : Nat
  posted : Option StationConfig
deriving DecidableEq

def enduserSetupHttpHandleCredentials (data : List UInt8) : Option Handled :=
  match search (bytesOf "wifi_ssid=") ((cString data).drop 6),
      search (bytesOf "wifi_password=") ((cString data).drop 6) with
  | some nameStr, some pwdStr =>
    let nameStrStart := nameStr.drop (bytesOf "wifi_ssid=").length
    let pwdStrStart := pwdStr.drop (bytesOf "wifi_password=").length
    match enduserSetupSrchStr nameStrStart (bytesOf "& "),
        enduserSetupSrchStr pwdStrStart (bytesOf "& ") with
    | some nameStrLen, some pwdStrLen =>
      (enduserSetupHttpUrldecode (List.replicate 32 0) nameStrStart nameStrLen).bind
        fun (ssid, err) =>
          (enduserSetupHttpUrldecode (List.replicate 64 0) pwdStrStart pwdStrLen).map
            fun (password, err') =>
              if err || err' then { ret := 1, posted := none }
              else { ret := 0, posted := some { ssid, password } }
    | _, _ => some { ret := 1, posted := none }
  | _, _ => some { ret := 1, posted := none }

/-! ## Form encoding -/

/-- Bytes that may stand for themselves. -/
def isPlain (c : UInt8) : Bool :=
  isDigit c || (0x41 ≤ c && c ≤ 0x5A) || (0x61 ≤ c && c ≤ 0x7A) ||
    (bytesOf "-._*").contains c

/-- The texts that encode some bytes. -/
inductive Encodes : List UInt8 → List UInt8 → Prop
  | nil : Encodes [] []
  | plain {c : UInt8} {bytes text : List UInt8} (hc : isPlain c = true)
      (h : Encodes bytes text) : Encodes (c :: bytes) (c :: text)
  | plus {bytes text : List UInt8} (h : Encodes bytes text) :
      Encodes (0x20 :: bytes) (0x2B :: text)
  | escape {a b : UInt8} {bytes text : List UInt8} (ha : isXDigit a = true)
      (hb : isXDigit b = true) (h : Encodes bytes text) :
      Encodes (UInt8.ofNat (16 * hexValue a + hexValue b) :: bytes) (0x25 :: a :: b :: text)

/-- What a text stands for as a whole; a percent sign without two digits is taken as it is. -/
def formDecode : List UInt8 → List UInt8
  | [] => []
  | [c] => [unplus c]
  | [c, a] => [unplus c, unplus a]
  | c :: a :: b :: rest =>
    if c = 0x25 ∧ isXDigit a = true ∧ isXDigit b = true then
      UInt8.ofNat (16 * hexValue a + hexValue b) :: formDecode rest
    else unplus c :: formDecode (a :: b :: rest)

theorem isPlain_literal {c : UInt8} (h : isPlain c = true) :
    c ≠ 0x25 ∧ unplus c = c ∧ c ≠ 0x3D ∧ c ≠ 0x26 ∧ c ≠ 0x20 ∧ c ≠ 0 := by
  have hall : ∀ c : Fin 256, isPlain (UInt8.ofFin c) = true → UInt8.ofFin c ≠ 0x25 ∧
      unplus (UInt8.ofFin c) = UInt8.ofFin c ∧ UInt8.ofFin c ≠ 0x3D ∧ UInt8.ofFin c ≠ 0x26 ∧
      UInt8.ofFin c ≠ 0x20 ∧ UInt8.ofFin c ≠ 0 := by
    decide +kernel
  exact hall c.toFin h

theorem isXDigit_literal {c : UInt8} (h : isXDigit c = true) :
    digit c = UInt8.ofNat (hexValue c) ∧ c ≠ 0x3D ∧ c ≠ 0x26 ∧ c ≠ 0x20 ∧ c ≠ 0 := by
  have hall : ∀ c : Fin 256, isXDigit (UInt8.ofFin c) = true →
      digit (UInt8.ofFin c) = UInt8.ofNat (hexValue (UInt8.ofFin c)) ∧ UInt8.ofFin c ≠ 0x3D ∧
      UInt8.ofFin c ≠ 0x26 ∧ UInt8.ofFin c ≠ 0x20 ∧ UInt8.ofFin c ≠ 0 := by
    decide +kernel
  exact hall c.toFin h

theorem digit_pair {a b : UInt8} (ha : isXDigit a = true) (hb : isXDigit b = true) :
    16 * digit a + digit b = UInt8.ofNat (16 * hexValue a + hexValue b) := by
  rw [(isXDigit_literal ha).1, (isXDigit_literal hb).1, UInt8.ofNat_add, UInt8.ofNat_mul]
  rfl

theorem formDecode_escape {a b : UInt8} (ha : isXDigit a = true) (hb : isXDigit b = true)
    (rest : List UInt8) : formDecode (0x25 :: a :: b :: rest) =
      UInt8.ofNat (16 * hexValue a + hexValue b) :: formDecode rest := by
  rw [formDecode, if_pos ⟨rfl, ha, hb⟩]

/-- A byte that begins no escape. -/
def Single (c : UInt8) (src : List UInt8) : Prop :=
  ∀ a b rest, src = a :: b :: rest → ¬(c = 0x25 ∧ isXDigit a = true ∧ isXDigit b = true)

theorem formDecode_single {c : UInt8} {text : List UInt8} (h : Single c text) :
    formDecode (c :: text) = unplus c :: formDecode text := by
  match text, h with
  | [], _ => rfl
  | [_], _ => rfl
  | a :: b :: rest, h => rw [formDecode, if_neg (h a b rest rfl)]

/-- Decoding takes every encoding of some bytes back to them. -/
theorem formDecode_of_encodes {bytes text : List UInt8} (h : Encodes bytes text) :
    formDecode text = bytes := by
  induction h with
  | nil => rfl
  | plain hc h ih =>
    obtain ⟨hpercent, hplus, -⟩ := isPlain_literal hc
    rw [formDecode_single fun _ _ _ _ hesc => hpercent hesc.1, ih, hplus]
  | plus h ih =>
    rw [formDecode_single fun _ _ _ _ hesc => absurd hesc.1 (by decide), ih]
    rfl
  | escape ha hb h ih => rw [formDecode_escape ha hb, ih]

/-- No separator and no equals sign is part of an encoding. -/
theorem encodes_chars {bytes text : List UInt8} (h : Encodes bytes text) :
    ∀ c ∈ text, c ≠ 0x3D ∧ c ≠ 0x26 ∧ c ≠ 0x20 ∧ c ≠ 0 := by
  induction h with
  | nil => exact fun c hc => absurd hc List.not_mem_nil
  | plain hplain h ih =>
    rw [List.forall_mem_cons]
    exact ⟨(isPlain_literal hplain).2.2, ih⟩
  | plus h ih =>
    rw [List.forall_mem_cons]
    exact ⟨by decide, ih⟩
  | escape ha hb h ih =>
    rw [List.forall_mem_cons, List.forall_mem_cons, List.forall_mem_cons]
    exact ⟨by decide, (isXDigit_literal ha).2, (isXDigit_literal hb).2, ih⟩

/-! ## The decoder -/

section Loop

variable {srcLen dstLast i : Nat} {pre : List UInt8} {n : Nat}

theorem put_zero (x : UInt8) :
    put (pre ++ List.replicate (n + 1) 0) pre.length [x] =
      some ((pre ++ [x]) ++ List.replicate n 0) := by
  rw [put_behind _ _ _ (by rw [List.length_replicate]; exact Nat.le_add_left 1 n),
    List.append_assoc]
  rfl

theorem urldecodeLoop_escape {a b : UInt8} (ha : isXDigit a = true) (hb : isXDigit b = true)
    (hi : i < srcLen) (hdst : pre.length < dstLast) (src : List UInt8) :
    urldecodeLoop srcLen dstLast (0x25 :: a :: b :: src) (pre ++ List.replicate (n + 1) 0)
        pre.length i =
      urldecodeLoop srcLen dstLast src
        ((pre ++ [UInt8.ofNat (16 * hexValue a + hexValue b)]) ++ List.replicate n 0)
        (pre.length + 1) (i + 3) := by
  rw [urldecodeLoop, if_pos ⟨hi, hdst⟩, if_pos ⟨rfl, ha, hb⟩, put_zero, Option.bind_some,
    digit_pair ha hb]

theorem urldecodeLoop_single {c : UInt8} {src : List UInt8} (h : Single c src)
    (hi : i < srcLen) (hdst : pre.length < dstLast) :
    urldecodeLoop srcLen dstLast (c :: src) (pre ++ List.replicate (n + 1) 0) pre.length i =
      urldecodeLoop srcLen dstLast src ((pre ++ [unplus c]) ++ List.replicate n 0)
        (pre.length + 1) (i + 1) := by
  rw [urldecodeLoop.eq_def srcLen dstLast (c :: src)]
  match src, h with
  | [], _ => simp only [if_pos (And.intro hi hdst), put_zero, Option.bind_some]
  | [_], _ => simp only [if_pos (And.intro hi hdst), put_zero, Option.bind_some]
  | a :: b :: rest, h =>
    simp only [if_pos (And.intro hi hdst), if_neg (h a b rest rfl), put_zero, Option.bind_some]

theorem urldecodeLoop_stop (h : ¬(i < srcLen ∧ pre.length < dstLast)) (src field : List UInt8) :
    urldecodeLoop srcLen dstLast src field pre.length i = some (field, pre.length, i) := by
  cases src with
  | nil => rfl
  | cons c src =>
    rw [urldecodeLoop.eq_def]
    exact if_neg h

/-- The field holds what there was room for, with a zero behind it, and input is left exactly
if there was too little room. -/
def Fills (srcLen : Nat) (pre : List UInt8) (n : Nat) (out : List UInt8)
    (result : Option (List UInt8 × Nat × Nat)) : Prop :=
  ∃ i', result = some (pre ++ out.take n ++ List.replicate (n + 1 - (out.take n).length) 0,
      pre.length + (out.take n).length, i') ∧ (i' < srcLen ↔ n < out.length)

theorem Fills.cons {x : UInt8} {out : List UInt8}
    {result : Option (List UInt8 × Nat × Nat)} (h : Fills srcLen (pre ++ [x]) n out result) :
    Fills srcLen pre (n + 1) (x :: out) result := by
  obtain ⟨i', hresult, hi'⟩ := h
  refine ⟨i', ?_, ?_⟩
  · rw [hresult, List.take_succ_cons, List.length_append, List.length_singleton,
      List.length_cons, List.append_assoc pre [x], List.singleton_append,
      Nat.add_assoc pre.length 1, Nat.add_comm 1, Nat.add_sub_add_right]
  · rw [hi', List.length_cons, Nat.add_lt_add_iff_right]

theorem Single.append {c d : UInt8} {src : List UInt8} (h : Single c src)
    (hd : isXDigit d = false) (rest : List UInt8) : Single c (src ++ d :: rest) := by
  intro a b rest' heq hesc
  match src, h with
  | [], _ =>
    obtain ⟨rfl, -⟩ := List.cons.inj heq
    rw [hd] at hesc
    cases hesc.2.1
  | [x], _ =>
    obtain ⟨-, htail⟩ := List.cons.inj heq
    obtain ⟨rfl, -⟩ := List.cons.inj htail
    rw [hd] at hesc
    cases hesc.2.2
  | x :: y :: src, h =>
    obtain ⟨rfl, htail⟩ := List.cons.inj heq
    obtain ⟨rfl, -⟩ := List.cons.inj htail
    exact h x y src rfl hesc

/-- A text that is not empty begins with an escape or with a byte by itself. -/
theorem escape_or_single (c : UInt8) (src : List UInt8) :
    (∃ a b rest, src = a :: b :: rest ∧ c = 0x25 ∧ isXDigit a = true ∧ isXDigit b = true) ∨
      Single c src := by
  by_cases h : ∃ a b rest, src = a :: b :: rest ∧ c = 0x25 ∧ isXDigit a = true ∧
      isXDigit b = true
  · exact Or.inl h
  · exact Or.inr fun a b rest heq hesc => h ⟨a, b, rest, heq, hesc⟩

theorem formDecode_pos (c : UInt8) (src : List UInt8) : 0 < (formDecode (c :: src)).length := by
  obtain ⟨a, b, rest, rfl, rfl, ha, hb⟩ | h := escape_or_single c src
  · rw [formDecode_escape ha hb]
    exact Nat.succ_pos _
  · rw [formDecode_single h]
    exact Nat.succ_pos _

/-- The loop decodes a value up to the byte behind it, as far as the field has room. -/
theorem urldecodeLoop_fills {d : UInt8} (hd : isXDigit d = false) (rest text : List UInt8)
    (hi : i + text.length = srcLen) (hn : pre.length + n = dstLast) :
    Fills srcLen pre n (formDecode text) (urldecodeLoop srcLen dstLast (text ++ d :: rest)
      (pre ++ List.replicate (n + 1) 0) pre.length i) := by
  induction hlen : text.length using Nat.strong_induction_on generalizing text pre n i with
  | _ len ih =>
    cases text with
    | nil =>
      refine ⟨i, ?_, ?_⟩
      · rw [List.length_nil, Nat.add_zero] at hi
        rw [urldecodeLoop_stop (by omega), formDecode, List.take_nil, List.append_nil]
        rfl
      · rw [List.length_nil, Nat.add_zero] at hi
        rw [hi, formDecode]
        exact iff_of_false (Nat.lt_irrefl _) (Nat.not_lt_zero n)
    | cons c src =>
      rw [List.length_cons] at hi hlen
      cases n with
      | zero =>
        refine ⟨i, ?_, ?_⟩
        · rw [urldecodeLoop_stop (by omega), List.take_zero, List.append_nil]
          rfl
        · exact iff_of_true (by omega) (formDecode_pos c src)
      | succ n =>
        obtain ⟨a, b, src, rfl, rfl, ha, hb⟩ | h := escape_or_single c src
        · rw [List.length_cons, List.length_cons] at hi hlen
          rw [formDecode_escape ha hb, List.cons_append, List.cons_append, List.cons_append,
            urldecodeLoop_escape ha hb (by omega) (by omega)]
          apply Fills.cons
          have hnext : Fills srcLen (pre ++ [UInt8.ofNat (16 * hexValue a + hexValue b)]) n _ _ :=
            ih src.length (by omega) src (by omega : i + 3 + src.length = srcLen)
              (by rw [List.length_append, List.length_singleton]; omega) rfl
          rw [List.length_append, List.length_singleton] at hnext
          exact hnext
        · rw [formDecode_single h, List.cons_append,
            urldecodeLoop_single (h.append hd rest) (by omega) (by omega)]
          apply Fills.cons
          have hnext : Fills srcLen (pre ++ [unplus c]) n _ _ :=
            ih src.length (by omega) src (by omega : i + 1 + src.length = srcLen)
              (by rw [List.length_append, List.length_singleton]; omega) rfl
          rw [List.length_append, List.length_singleton] at hnext
          exact hnext

end Loop

/-- A value is decoded into a cleared field, with a zero behind it, and input is left exactly
if it is too long. -/
theorem urldecode_eq {d : UInt8} (hd : isXDigit d = false) (rest text : List UInt8) (n : Nat) :
    enduserSetupHttpUrldecode (List.replicate (n + 1) 0) (text ++ d :: rest) text.length =
      some (padded (n + 1) ((formDecode text).take n), decide (n < (formDecode text).length)) := by
  obtain ⟨i', hloop, hi'⟩ := urldecodeLoop_fills (i := 0) (n := n) hd rest text
    (Nat.zero_add _) ((congrArg (· + n) List.length_nil).trans (Nat.zero_add n))
  rw [List.nil_append, List.nil_append, List.length_nil, Nat.zero_add] at hloop
  have hle : ((formDecode text).take n).length ≤ n := List.length_take_le _ _
  obtain ⟨m, hm⟩ := Nat.exists_eq_add_of_le hle
  rw [enduserSetupHttpUrldecode, List.length_replicate, Nat.add_sub_cancel, hloop,
    Option.bind_some]
  simp only [show n + 1 - ((formDecode text).take n).length = m + 1 by omega]
  rw [put_zero, Option.map_some, padded,
    show n + 1 - ((formDecode text).take n).length = m + 1 by omega, List.append_assoc]
  simp only [hi']
  rfl

/-! ## The values in a request -/

/-- A value ends with an ampersand or a blank. -/
def isDelimiter (c : UInt8) : Bool := (bytesOf "& ").contains c

theorem isDelimiter_iff (c : UInt8) : isDelimiter c = true ↔ c = 0x26 ∨ c = 0x20 := by
  have hall : ∀ c : Fin 256, isDelimiter (UInt8.ofFin c) = true ↔
      UInt8.ofFin c = 0x26 ∨ UInt8.ofFin c = 0x20 := by
    decide +kernel
  exact hall c.toFin

theorem not_isXDigit_of_isDelimiter {c : UInt8} (h : isDelimiter c = true) :
    isXDigit c = false := by
  obtain rfl | rfl := (isDelimiter_iff c).mp h <;> rfl

/-- The text between the first name in a request and the next delimiter. -/
def Value (name request text : List UInt8) : Prop :=
  ∃ k d rest, FirstAt name request k ∧ k ≤ request.length ∧
    request.drop (k + name.length) = text ++ d :: rest ∧ isDelimiter d = true ∧
    ∀ c ∈ text, isDelimiter c = false

theorem srchStr_eq_some_iff {str : List UInt8} {k : Nat} :
    enduserSetupSrchStr str (bytesOf "& ") = some k ↔
      ∃ text d rest, str = text ++ d :: rest ∧ text.length = k ∧ isDelimiter d = true ∧
        ∀ c ∈ text, isDelimiter c = false := by
  change str.findIdx? isDelimiter = some k ↔ _
  induction str generalizing k with
  | nil =>
    refine iff_of_false (Option.some_ne_none k).symm ?_
    rintro ⟨text, d, rest, h, -⟩
    exact absurd h.symm (List.append_ne_nil_of_right_ne_nil _ (List.cons_ne_nil _ _))
  | cons c str ih =>
    rw [List.findIdx?_cons]
    constructor
    · intro h
      split at h
      · rename_i hc
        exact ⟨[], c, str, rfl, Option.some.inj h, hc, fun _ hx => absurd hx List.not_mem_nil⟩
      · rename_i hc
        obtain ⟨k', hk', rfl⟩ := Option.map_eq_some_iff.mp h
        obtain ⟨text, d, rest, rfl, rfl, hd, htext⟩ := ih.mp hk'
        refine ⟨c :: text, d, rest, rfl, rfl, hd, ?_⟩
        rw [List.forall_mem_cons]
        exact ⟨Bool.not_eq_true _ ▸ hc, htext⟩
    · rintro ⟨text, d, rest, h, rfl, hd, htext⟩
      cases text with
      | nil =>
        obtain ⟨rfl, -⟩ := List.cons.inj h
        exact if_pos hd
      | cons x text =>
        obtain ⟨rfl, rfl⟩ := List.cons.inj h
        rw [List.forall_mem_cons] at htext
        rw [if_neg (by rw [htext.1]; decide), List.length_cons]
        exact Option.map_eq_some_iff.mpr
          ⟨text.length, ih.mpr ⟨text, d, rest, rfl, rfl, hd, htext.2⟩, rfl⟩

/-- Where there is a value the two searches find it. -/
theorem value_found {name request text : List UInt8} (h : Value name request text) :
    ∃ str d rest, search name request = some str ∧ str.drop name.length = text ++ d :: rest ∧
      isXDigit d = false ∧
      enduserSetupSrchStr (str.drop name.length) (bytesOf "& ") = some text.length := by
  obtain ⟨i, d, rest, hfirst, hi, heq, hd, htext⟩ := h
  refine ⟨request.drop i, d, rest, search_of_firstAt hi hfirst, ?_,
    not_isXDigit_of_isDelimiter hd, ?_⟩
  · rw [List.drop_drop, heq]
  · rw [List.drop_drop, heq]
    exact srchStr_eq_some_iff.mpr ⟨text, d, rest, rfl, rfl, hd, htext⟩

theorem exists_value {name request str : List UInt8} {k : Nat}
    (hstr : search name request = some str)
    (hk : enduserSetupSrchStr (str.drop name.length) (bytesOf "& ") = some k) :
    ∃ text, Value name request text := by
  obtain ⟨i, hi, hfirst, rfl⟩ := search_eq_some_iff.mp hstr
  obtain ⟨text, d, rest, heq, -, hd, htext⟩ := srchStr_eq_some_iff.mp hk
  rw [List.drop_drop] at heq
  exact ⟨text, i, d, rest, hfirst, hi, heq, hd, htext⟩

/-- Two values are posted if both are decoded completely. -/
theorem handleCredentials_of_values {data nameText pwdText : List UInt8}
    (hname : Value (bytesOf "wifi_ssid=") ((cString data).drop 6) nameText)
    (hpwd : Value (bytesOf "wifi_password=") ((cString data).drop 6) pwdText) :
    enduserSetupHttpHandleCredentials data =
      if 31 < (formDecode nameText).length ∨ 63 < (formDecode pwdText).length then
        some { ret := 1, posted := none }
      else
        some { ret := 0, posted := some { ssid := padded 32 (formDecode nameText)
                                          password := padded 64 (formDecode pwdText) } } := by
  obtain ⟨nameStr, d, rest, hstr, heq, hd, hlen⟩ := value_found hname
  obtain ⟨pwdStr, d', rest', hstr', heq', hd', hlen'⟩ := value_found hpwd
  rw [enduserSetupHttpHandleCredentials]
  simp only [hstr, hstr', hlen, hlen']
  rw [heq, heq', urldecode_eq hd rest nameText 31, urldecode_eq hd' rest' pwdText 63]
  simp only [Option.bind_some, Option.map_some, Bool.or_eq_true, decide_eq_true_eq]
  split
  · rfl
  · rename_i h
    rw [not_or, Nat.not_lt, Nat.not_lt] at h
    rw [List.take_of_length_le h.1, List.take_of_length_le h.2]

/-- Without both values nothing is posted. -/
theorem handleCredentials_refused {data : List UInt8}
    (h : ¬((∃ text, Value (bytesOf "wifi_ssid=") ((cString data).drop 6) text) ∧
      ∃ text, Value (bytesOf "wifi_password=") ((cString data).drop 6) text)) :
    enduserSetupHttpHandleCredentials data = some { ret := 1, posted := none } := by
  rw [enduserSetupHttpHandleCredentials]
  split
  · rename_i nameStr pwdStr hstr hstr'
    dsimp only
    split
    · rename_i hlen hlen'
      exact absurd ⟨exists_value hstr hlen, exists_value hstr' hlen'⟩ h
    · rfl
  · rfl

/-! ## Requests with credentials -/

/-- The parameters of a query, each with the ampersand behind it. -/
def params (ps : List (List UInt8)) : List UInt8 := ps.flatMap (· ++ [0x26])

/-- Another parameter, which gives neither of the two values. -/
structure Other (param : List UInt8) : Prop where
  chars : ∀ c ∈ param, c ≠ 0x26 ∧ c ≠ 0x20 ∧ c ≠ 0
  ssid : ¬bytesOf "wifi_ssid=" <:+: param
  password : ¬bytesOf "wifi_password=" <:+: param

/-- A request for `/update` that gives the two values in one order or the other, between other
parameters, with anything behind. -/
structure Request where
  ssid : List UInt8
  password : List UInt8
  ssid_le : ssid.length ≤ 31
  password_le : password.length ≤ 63
  ssidText : List UInt8
  passwordText : List UInt8
  ssidEncoded : Encodes ssid ssidText
  passwordEncoded : Encodes password passwordText
  ssidFirst : Bool
  lead : List (List UInt8)
  mid : List (List UInt8)
  others : ∀ p ∈ lead ++ mid, Other p
  delimiter : UInt8
  delimits : isDelimiter delimiter = true
  rest : List UInt8

def Request.bytes (r : Request) : List UInt8 :=
  let ssid := bytesOf "wifi_ssid=" ++ r.ssidText
  let password := bytesOf "wifi_password=" ++ r.passwordText
  bytesOf "GET /update?" ++ params r.lead ++ (if r.ssidFirst then ssid else password) ++
    [0x26] ++ params r.mid ++ (if r.ssidFirst then password else ssid) ++ r.delimiter :: r.rest

theorem not_infix_params {name : List UInt8} (hsep : 0x26 ∉ name) {ps : List (List UInt8)}
    (hps : ∀ p ∈ ps, ¬name <:+: p) {last : List UInt8} (hlast : ¬name <:+: last) :
    ¬name <:+: params ps ++ last := by
  induction ps with
  | nil => exact hlast
  | cons p ps ih =>
    rw [List.forall_mem_cons] at hps
    rw [params, List.flatMap_cons, List.append_assoc, List.append_assoc, List.singleton_append]
    intro h
    rcases infix_separated hsep h with h | h
    · exact hps.1 h
    · exact ih hps.2 h

/-- The first place of a name is where it is given, if it does not occur before. -/
theorem value_given {name : List UInt8} (hname : 0x3D ∉ name) {before text : List UInt8}
    (hbefore : ¬name ++ [0x3D] <:+: before) (htext : ∀ c ∈ text, isDelimiter c = false)
    {d : UInt8} (hd : isDelimiter d = true) (rest : List UInt8) :
    Value (name ++ [0x3D]) (before ++ (name ++ [0x3D] ++ (text ++ d :: rest))) text := by
  refine ⟨before.length, d, rest, firstAt_given hname hbefore _, ?_, ?_, hd, htext⟩
  · rw [List.length_append]
    omega
  · rw [← List.drop_drop, List.drop_left, List.drop_left]

/-- The name of a field, which does not occur in the path and holds no separator. -/
structure FieldName (name : List UInt8) : Prop where
  equals : 0x3D ∉ name
  ampersand : 0x26 ∉ name ++ [0x3D]
  question : 0x3F ∉ name ++ [0x3D]
  path : ¬name ++ [0x3D] <:+: bytesOf "pdate"

theorem ssid_fieldName : FieldName (bytesOf "wifi_ssid") :=
  ⟨by decide, by decide, by decide, by decide⟩

theorem password_fieldName : FieldName (bytesOf "wifi_password") :=
  ⟨by decide, by decide, by decide, by decide⟩

theorem not_infix_query {name : List UInt8} (h : FieldName name) {lead : List (List UInt8)}
    (hlead : ∀ p ∈ lead, ¬name ++ [0x3D] <:+: p) {last : List UInt8}
    (hlast : ¬name ++ [0x3D] <:+: last) :
    ¬name ++ [0x3D] <:+: bytesOf "pdate" ++ 0x3F :: (params lead ++ last) := by
  intro hinfix
  rcases infix_separated h.question hinfix with hpath | hparams
  · exact h.path hpath
  · exact not_infix_params h.ampersand hlead hlast hparams

theorem not_infix_nil (name : List UInt8) : ¬name ++ [0x3D] <:+: [] := by
  rw [List.infix_nil]
  exact List.append_ne_nil_of_right_ne_nil _ (List.cons_ne_nil _ _)

/-- Of two fields both values are given where they stand, if no other parameter holds a name. -/
theorem values_given {name name' text text' rest : List UInt8} {lead mid : List (List UInt8)}
    {d : UInt8} (hname : FieldName name) (hname' : FieldName name')
    (hother : ¬name' ++ [0x3D] <:+: name ++ [0x3D])
    (hlead : ∀ p ∈ lead, ¬name ++ [0x3D] <:+: p)
    (hlead' : ∀ p ∈ lead ++ mid, ¬name' ++ [0x3D] <:+: p) (hequals : 0x3D ∉ text)
    (htext : ∀ c ∈ text, isDelimiter c = false) (htext' : ∀ c ∈ text', isDelimiter c = false)
    (hd : isDelimiter d = true) :
    Value (name ++ [0x3D]) (bytesOf "pdate" ++ 0x3F :: (params lead ++ (name ++ [0x3D] ++
        (text ++ 0x26 :: (params mid ++ (name' ++ [0x3D] ++ (text' ++ d :: rest))))))) text ∧
      Value (name' ++ [0x3D]) (bytesOf "pdate" ++ 0x3F :: (params lead ++ (name ++ [0x3D] ++
        (text ++ 0x26 :: (params mid ++ (name' ++ [0x3D] ++ (text' ++ d :: rest))))))) text' := by
  rw [List.forall_mem_append] at hlead'
  constructor
  · have hbefore := not_infix_query hname hlead (not_infix_nil name)
    rw [List.append_nil] at hbefore
    have hvalue := value_given hname.equals hbefore htext (by decide : isDelimiter 0x26 = true)
      (params mid ++ (name' ++ [0x3D] ++ (text' ++ d :: rest)))
    rw [List.append_assoc, List.cons_append] at hvalue
    exact hvalue
  · have hlast : ¬name' ++ [0x3D] <:+: name ++ [0x3D] ++ text := fun h =>
      hother (infix_of_not_mem hequals h)
    have hmid := not_infix_params hname'.ampersand hlead'.2 (not_infix_nil name')
    rw [List.append_nil] at hmid
    have hbefore : ¬name' ++ [0x3D] <:+: bytesOf "pdate" ++ 0x3F ::
        (params lead ++ (name ++ [0x3D] ++ text)) ++ 0x26 :: params mid := fun h =>
      (infix_separated hname'.ampersand h).elim (not_infix_query hname' hlead'.1 hlast) hmid
    have hvalue := value_given hname'.equals hbefore htext' hd rest
    simp only [List.append_assoc, List.cons_append] at hvalue ⊢
    exact hvalue

theorem not_mem_zero_params {ps : List (List UInt8)} (h : ∀ p ∈ ps, Other p) :
    ∀ c ∈ params ps, c ≠ 0 := by
  intro c hc
  obtain ⟨p, hp, hc⟩ := List.mem_flatMap.mp hc
  rcases List.mem_append.mp hc with hc | hc
  · exact ((h p hp).chars c hc).2.2
  · rw [List.mem_singleton.mp hc]
    decide

/-- The two parameters of a request in their order, each as its name and its text. -/
def Request.pairs (r : Request) : (List UInt8 × List UInt8) × (List UInt8 × List UInt8) :=
  if r.ssidFirst then
    ((bytesOf "wifi_ssid", r.ssidText), (bytesOf "wifi_password", r.passwordText))
  else ((bytesOf "wifi_password", r.passwordText), (bytesOf "wifi_ssid", r.ssidText))

theorem request_bytes (r : Request) :
    r.bytes = bytesOf "GET /u" ++ (bytesOf "pdate" ++ 0x3F :: (params r.lead ++
      (r.pairs.1.1 ++ [0x3D] ++ (r.pairs.1.2 ++ 0x26 :: (params r.mid ++
        (r.pairs.2.1 ++ [0x3D] ++ r.pairs.2.2)))))) ++ r.delimiter :: r.rest := by
  have hpath : bytesOf "GET /update?" = bytesOf "GET /u" ++ (bytesOf "pdate" ++ [0x3F]) := by
    decide
  have hssid : bytesOf "wifi_ssid=" = bytesOf "wifi_ssid" ++ [0x3D] := by decide
  have hpwd : bytesOf "wifi_password=" = bytesOf "wifi_password" ++ [0x3D] := by decide
  rw [Request.bytes, Request.pairs, hpath, hssid, hpwd]
  cases r.ssidFirst with
  | false =>
    simp only [Bool.false_eq_true, if_false, List.append_assoc, List.nil_append,
      List.cons_append]
  | true => simp only [if_true, List.append_assoc, List.nil_append, List.cons_append]

theorem pairs_not_zero (r : Request) :
    (0 ∉ r.pairs.1.1 ∧ 0 ∉ r.pairs.1.2) ∧ 0 ∉ r.pairs.2.1 ∧ 0 ∉ r.pairs.2.2 := by
  have hssid : 0 ∉ r.ssidText := fun h => (encodes_chars r.ssidEncoded 0 h).2.2.2 rfl
  have hpwd : 0 ∉ r.passwordText := fun h => (encodes_chars r.passwordEncoded 0 h).2.2.2 rfl
  have hnames : 0 ∉ bytesOf "wifi_ssid" ∧ 0 ∉ bytesOf "wifi_password" := by decide
  rw [Request.pairs]
  cases r.ssidFirst with
  | false => exact ⟨⟨hnames.2, hpwd⟩, hnames.1, hssid⟩
  | true => exact ⟨⟨hnames.1, hssid⟩, hnames.2, hpwd⟩

theorem cString_behind {text : List UInt8} (h : 0 ∉ text) (rest : List UInt8) :
    cString (text ++ rest) = text ++ cString rest := by
  rw [cString, List.takeWhile_append_of_pos]
  · rfl
  · exact fun c hc => bne_iff_ne.mpr fun heq => h (heq ▸ hc)

/-- A request is searched behind its first six bytes, up to its first zero. -/
theorem request_string (r : Request) :
    (cString r.bytes).drop 6 = bytesOf "pdate" ++ 0x3F :: (params r.lead ++
      (r.pairs.1.1 ++ [0x3D] ++ (r.pairs.1.2 ++ 0x26 :: (params r.mid ++
        (r.pairs.2.1 ++ [0x3D] ++ (r.pairs.2.2 ++ r.delimiter :: cString r.rest)))))) := by
  obtain ⟨⟨hname, htext⟩, hname', htext'⟩ := pairs_not_zero r
  have hlead : 0 ∉ params r.lead := fun h =>
    not_mem_zero_params (fun p hp => r.others p (List.mem_append_left _ hp)) 0 h rfl
  have hmid : 0 ∉ params r.mid := fun h =>
    not_mem_zero_params (fun p hp => r.others p (List.mem_append_right _ hp)) 0 h rfl
  have hpath : 0 ∉ bytesOf "GET /u" ∧ 0 ∉ bytesOf "pdate" := by decide
  have hd : r.delimiter ≠ 0 := by
    obtain h | h := (isDelimiter_iff _).mp r.delimits <;> rw [h] <;> decide
  have hrest : cString (r.delimiter :: r.rest) = r.delimiter :: cString r.rest :=
    List.takeWhile_cons_of_pos (bne_iff_ne.mpr hd)
  rw [request_bytes, cString_behind, hrest, List.append_assoc]
  · simp only [List.append_assoc, List.cons_append]
    exact List.drop_left' rfl
  · simp only [List.mem_append, List.mem_cons, List.not_mem_nil, hpath, hlead, hmid, hname,
      htext, hname', htext', not_or]
    decide

/-- Both values are given in a request. -/
theorem request_values (r : Request) :
    Value (bytesOf "wifi_ssid=") ((cString r.bytes).drop 6) r.ssidText ∧
      Value (bytesOf "wifi_password=") ((cString r.bytes).drop 6) r.passwordText := by
  have hchars : ∀ {bytes text : List UInt8}, Encodes bytes text →
      0x3D ∉ text ∧ ∀ c ∈ text, isDelimiter c = false := by
    intro bytes text h
    refine ⟨fun hc => (encodes_chars h _ hc).1 rfl, fun c hc => ?_⟩
    obtain ⟨-, hamp, hblank, -⟩ := encodes_chars h c hc
    rw [Bool.eq_false_iff, ne_eq, isDelimiter_iff, not_or]
    exact ⟨hamp, hblank⟩
  have hssid : ∀ p ∈ r.lead ++ r.mid, ¬bytesOf "wifi_ssid" ++ [0x3D] <:+: p := fun p hp =>
    (r.others p hp).ssid
  have hpwd : ∀ p ∈ r.lead ++ r.mid, ¬bytesOf "wifi_password" ++ [0x3D] <:+: p := fun p hp =>
    (r.others p hp).password
  have hnames : ¬bytesOf "wifi_ssid" ++ [0x3D] <:+: bytesOf "wifi_password" ++ [0x3D] ∧
      ¬bytesOf "wifi_password" ++ [0x3D] <:+: bytesOf "wifi_ssid" ++ [0x3D] := by decide
  rw [request_string, Request.pairs]
  cases r.ssidFirst with
  | false =>
    exact (values_given password_fieldName ssid_fieldName hnames.1
      (fun p hp => hpwd p (List.mem_append_left _ hp)) hssid (hchars r.passwordEncoded).1
      (hchars r.passwordEncoded).2 (hchars r.ssidEncoded).2 r.delimits).symm
  | true =>
    exact values_given ssid_fieldName password_fieldName hnames.2
      (fun p hp => hssid p (List.mem_append_left _ hp)) hpwd (hchars r.ssidEncoded).1
      (hchars r.ssidEncoded).2 (hchars r.passwordEncoded).2 r.delimits

/-- What is posted for a request is both values of it, decoded as a whole. -/
def Complete (data : List UInt8) (cnf : StationConfig) : Prop :=
  ∃ nameText pwdText, Value (bytesOf "wifi_ssid=") ((cString data).drop 6) nameText ∧
    Value (bytesOf "wifi_password=") ((cString data).drop 6) pwdText ∧
    (formDecode nameText).length ≤ 31 ∧ cnf.ssid = padded 32 (formDecode nameText) ∧
    (formDecode pwdText).length ≤ 63 ∧ cnf.password = padded 64 (formDecode pwdText)

/-- The credentials of every request that gives them encoded are stored as they are. For every
request whatsoever nothing outside the two fields is written, and what is posted was decoded
completely. -/
theorem credentials_stored :
    (∀ r : Request, enduserSetupHttpHandleCredentials r.bytes =
      some { ret := 0, posted := some { ssid := padded 32 r.ssid
                                        password := padded 64 r.password } }) ∧
    ∀ query : List UInt8, ∃ handled,
      enduserSetupHttpHandleCredentials (bytesOf "GET /update?" ++ query) = some handled ∧
      ∀ cnf, handled.posted = some cnf → Complete (bytesOf "GET /update?" ++ query) cnf := by
  constructor
  · intro r
    obtain ⟨hssid, hpwd⟩ := request_values r
    rw [handleCredentials_of_values hssid hpwd, formDecode_of_encodes r.ssidEncoded,
      formDecode_of_encodes r.passwordEncoded, if_neg]
    rw [not_or, Nat.not_lt, Nat.not_lt]
    exact ⟨r.ssid_le, r.password_le⟩
  · intro query
    by_cases h : (∃ text, Value (bytesOf "wifi_ssid=")
        ((cString (bytesOf "GET /update?" ++ query)).drop 6) text) ∧
      ∃ text, Value (bytesOf "wifi_password=")
        ((cString (bytesOf "GET /update?" ++ query)).drop 6) text
    · obtain ⟨⟨nameText, hname⟩, pwdText, hpwd⟩ := h
      rw [handleCredentials_of_values hname hpwd]
      split
      · exact ⟨_, rfl, fun cnf hcnf => absurd hcnf (Option.some_ne_none cnf).symm⟩
      · rename_i hlen
        rw [not_or, Nat.not_lt, Nat.not_lt] at hlen
        refine ⟨_, rfl, fun cnf hcnf => ?_⟩
        obtain rfl := Option.some.inj hcnf
        exact ⟨nameText, pwdText, hname, hpwd, hlen.1, rfl, hlen.2, rfl⟩
    · rw [handleCredentials_refused h]
      exact ⟨_, rfl, fun cnf hcnf => absurd hcnf (Option.some_ne_none cnf).symm⟩

example : enduserSetupHttpHandleCredentials
    (bytesOf "GET /update?wifi_password=a%2Bb&aplist=%c3&wifi_ssid=My+Net HTTP/1.1") =
      some { ret := 0, posted := some { ssid := padded 32 (bytesOf "My Net")
                                        password := padded 64 (bytesOf "a+b") } } := by
  decide +kernel

end NodeMcu.EnduserSetup.Credentials
