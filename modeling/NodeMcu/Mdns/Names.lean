import NodeMcu.Lib.Text

namespace NodeMcu.Mdns.Names

open NodeMcu.Lib.Text

def dot : UInt8 := 0x2E

/-- The byte at each address that may be read. -/
abbrev Bytes := Nat → Option UInt8

/-- A computation that reads bytes. It may need more steps, or leave the bytes. -/
inductive Run (α : Type)
  | more
  | outside
  | ends (a : α)
  deriving DecidableEq

variable {α β : Type}

def Run.bind : Run α → (α → Run β) → Run β
  | .more, _ => .more
  | .outside, _ => .outside
  | .ends a, f => f a

instance : Monad Run where
  pure := .ends
  bind := Run.bind

@[simp] theorem more_bind (f : α → Run β) : (Run.more >>= f) = .more := rfl

@[simp] theorem outside_bind (f : α → Run β) : (Run.outside >>= f) = .outside := rfl

@[simp] theorem ends_bind (a : α) (f : α → Run β) : (Run.ends a >>= f) = f a := rfl

@[simp] theorem pure_eq_ends (a : α) : (pure a : Run α) = .ends a := rfl

theorem bind_ends_iff (x : Run α) (f : α → Run β) (b : β) :
    (x >>= f) = .ends b ↔ ∃ a, x = .ends a ∧ f a = .ends b := by
  cases x <;> simp

def readByte (m : Bytes) (i : Nat) : Run UInt8 :=
  match m i with
  | none => .outside
  | some c => .ends c

section code

def isPointer (n : UInt8) : Bool := n &&& 0xC0 == 0xC0

/-- The offset is computed in an `unsigned char`. -/
def pointerTarget (n b : UInt8) : Nat := (n.toNat * 256 + b.toNat) % 0x4000 % 256

/-- Whether the `n` bytes of a label are those of the query, ignoring case. -/
def compareLabel (query response : Bytes) : Nat → Nat → Nat → Run Bool
  | 0, _, _ => .ends true
  | n + 1, q, r => do
    let a ← readByte query q
    let b ← readByte response r
    if toLower a = toLower b then compareLabel query response n (q + 1) (r + 1) else .ends false

/-- The test at the end of the loop. -/
def unlessRoot (response : Bytes) (r : Nat) (next : Run Nat) : Run Nat := do
  let c ← readByte response r
  if c = 0 then .ends 0 else next

/-- The loop of `mdns_compare_name`, with a bound for its steps. The addresses are offsets from the
beginning of the query and from that of the packet. -/
def compareLoop (query response : Bytes) : Nat → Nat → Nat → Run Nat
  | 0, _, _ => .more
  | k + 1, q, r => do
    let n ← readByte response r
    if isPointer n then
      let b ← readByte response (r + 1)
      let t := pointerTarget n b
      if t < r + 1 then unlessRoot response t (compareLoop query response k q t) else .ends 1
    else
      let same ← compareLabel query response n.toNat q (r + 1)
      if same then
        unlessRoot response (r + 1 + n.toNat)
          (compareLoop query response k (q + n.toNat + 1) (r + 1 + n.toNat))
      else .ends 1

def mdnsCompareName (query packet : Bytes) (steps response : Nat) : Run Nat :=
  compareLoop query packet steps 0 response

/-- The loop of `mdns_namelen` from the length byte at `p` on. -/
def namelenLoop (packet : Bytes) (orig maxlen : Nat) : Nat → Nat → Run Int
  | 0, _ => .more
  | k + 1, p => do
    let c ← readByte packet p
    if c ≠ 0 ∧ c ≤ 63 then
      if maxlen < p - orig then .ends (-1) else namelenLoop packet orig maxlen k (p + (c.toNat + 1))
    else
      let p := if 0xC0 ≤ c then p + 2 else p + 1
      if maxlen < p - orig then .ends (-1) else .ends (p - orig : Nat)

/-- Each step leaves a length byte behind. -/
def mdnsNamelen (packet : Bytes) (orig maxlen : Nat) : Run Int :=
  namelenLoop packet orig maxlen (maxlen + 2) orig

/-- What `copy_and_encode_name` writes for the rest of a name, of which it has passed the bytes
`label` since the last dot. -/
def encodeFrom (label : List UInt8) : List UInt8 → List UInt8
  | [] => if label = [] then [0] else UInt8.ofNat label.length :: label ++ [0]
  | c :: name =>
    if c = dot then UInt8.ofNat label.length :: label ++ encodeFrom [] name
    else encodeFrom (label ++ [c]) name

def copyAndEncodeName (name : List UInt8) : List UInt8 := encodeFrom [] name

end code

section walk

/-- How an encoded name ends. -/
inductive Ending
  | root
  | refused
  | itself
  | outside (part : List UInt8)
  | more
  deriving DecidableEq

/-- The labels of an encoded name, and its end. -/
structure Walk where
  labels : List (List UInt8)
  ending : Ending
  deriving DecidableEq

/-- As many bytes of a label as are there, and whether these are all. -/
def labelBytes (packet : Bytes) : Nat → Nat → List UInt8 × Bool
  | 0, _ => ([], true)
  | n + 1, r =>
    match packet r with
    | none => ([], false)
    | some c => (c :: (labelBytes packet n (r + 1)).1, (labelBytes packet n (r + 1)).2)

def Walk.unlessRoot (packet : Bytes) (r : Nat) (w : Walk) : Walk :=
  match packet r with
  | none => ⟨[], .outside []⟩
  | some c => if c = 0 then ⟨[], .root⟩ else w

/-- The labels that are read from a place on, when pointers are taken modulo 256. -/
def walk (packet : Bytes) : Nat → Nat → Walk
  | 0, _ => ⟨[], .more⟩
  | k + 1, r =>
    match packet r with
    | none => ⟨[], .outside []⟩
    | some n =>
      if isPointer n then
        match packet (r + 1) with
        | none => ⟨[], .outside []⟩
        | some b =>
          if b.toNat = r then ⟨[], .itself⟩
          else if r < b.toNat then ⟨[], .refused⟩
          else Walk.unlessRoot packet b.toNat (walk packet k b.toNat)
      else
        let l := labelBytes packet n.toNat (r + 1)
        if l.2 then
          let w := Walk.unlessRoot packet (r + 1 + n.toNat) (walk packet k (r + 1 + n.toNat))
          { w with labels := l.1 :: w.labels }
        else ⟨[], .outside l.1⟩

/-- The bytes of a label with their places in the name that it is compared with. -/
def labelPlaces (q : Nat) : List UInt8 → List (Nat × UInt8)
  | [] => []
  | c :: cs => (q, c) :: labelPlaces (q + 1) cs

def placesOf (q : Nat) : List (List UInt8) → List (Nat × UInt8)
  | [] => []
  | l :: ls => labelPlaces q l ++ placesOf (q + l.length + 1) ls

/-- The labels, and what is there of one that is not whole. -/
def Walk.parts (w : Walk) : List (List UInt8) :=
  match w.ending with
  | .outside part => w.labels ++ [part]
  | _ => w.labels

/-- The byte is the one of the query at its place, ignoring case. -/
def Same (query : Bytes) (p : Nat × UInt8) : Prop :=
  ∃ a, query p.1 = some a ∧ toLower a = toLower p.2

def comparePlaces (query : Bytes) : List (Nat × UInt8) → Run Bool
  | [] => .ends true
  | p :: ps => do
    let a ← readByte query p.1
    if toLower a = toLower p.2 then comparePlaces query ps else .ends false

/-- What the comparison gives at the end of the encoded name. -/
def Ending.result : Ending → Run Nat
  | .root => .ends 0
  | .refused => .ends 1
  | .itself => .more
  | .outside _ => .outside
  | .more => .more

theorem isPointer_iff (n : UInt8) : isPointer n = true ↔ 192 ≤ n.toNat := by
  have hall : ∀ i : Fin 256, isPointer (UInt8.ofNat i.val) = decide (192 ≤ i.val) := by
    decide +kernel
  have h := hall ⟨n.toNat, n.toNat_lt⟩
  rw [UInt8.ofNat_toNat] at h
  rw [h, decide_eq_true_eq]

@[simp] theorem pointerTarget_eq (n b : UInt8) : pointerTarget n b = b.toNat := by
  have := b.toNat_lt
  rw [pointerTarget]
  omega

theorem comparePlaces_append (query : Bytes) (ps qs : List (Nat × UInt8)) :
    comparePlaces query (ps ++ qs) = comparePlaces query ps >>= fun same =>
      if same then comparePlaces query qs else .ends false := by
  induction ps with
  | nil => rfl
  | cons p ps ih =>
    rw [List.cons_append, comparePlaces, comparePlaces]
    cases hp : readByte query p.1 with
    | more => rfl
    | outside => rfl
    | ends a =>
      simp only [ends_bind]
      split
      · exact ih
      · rfl

theorem compareLabel_eq (query response : Bytes) (n q r : Nat) :
    compareLabel query response n q r =
      comparePlaces query (labelPlaces q (labelBytes response n r).1) >>= fun same =>
        if same then (if (labelBytes response n r).2 then .ends true else .outside)
        else .ends false := by
  induction n generalizing q r with
  | zero => rfl
  | succ n ih =>
    rw [compareLabel, labelBytes]
    cases hr : response r with
    | none =>
      simp only [readByte, hr]
      cases query q <;> rfl
    | some b =>
      simp only [readByte, hr, labelPlaces, comparePlaces]
      cases query q with
      | none => rfl
      | some a =>
        simp only [ends_bind]
        split
        · exact ih (q + 1) (r + 1)
        · rfl

theorem labelBytes_length (packet : Bytes) (n r : Nat) (h : (labelBytes packet n r).2 = true) :
    (labelBytes packet n r).1.length = n := by
  induction n generalizing r with
  | zero => rfl
  | succ n ih =>
    rw [labelBytes] at h ⊢
    cases hr : packet r with
    | none =>
      rw [hr] at h
      cases h
    | some c =>
      rw [hr] at h
      exact congrArg (· + 1) (ih (r + 1) h)

theorem compareLoop_itself (query packet : Bytes) (k q r : Nat) (n b : UInt8)
    (hn : packet r = some n) (hpointer : isPointer n = true) (hb : packet (r + 1) = some b)
    (hr : b.toNat = r) : compareLoop query packet k q r = .more := by
  induction k with
  | zero => rfl
  | succ k ih =>
    have hne : n ≠ 0 := by
      rintro rfl
      exact absurd hpointer (by decide)
    rw [compareLoop, readByte, hn]
    simp only [ends_bind, hpointer, if_true, readByte, hb, pointerTarget_eq, hr, unlessRoot, hn,
      if_neg hne]
    rw [if_pos (Nat.lt_succ_self r), ih]

theorem parts_cons (w : Walk) (l : List UInt8) :
    ({ w with labels := l :: w.labels } : Walk).parts = l :: w.parts := by
  unfold Walk.parts
  cases w.ending <;> rfl

/-- The comparison goes through the labels until a byte differs. -/
theorem compareLoop_eq (query packet : Bytes) (k q r : Nat) :
    compareLoop query packet k q r =
      comparePlaces query (placesOf q (walk packet k r).parts) >>= fun same =>
        if same then (walk packet k r).ending.result else .ends 1 := by
  induction k generalizing q r with
  | zero => rfl
  | succ k ih =>
    have hgoOn : ∀ q' r', unlessRoot packet r' (compareLoop query packet k q' r') =
        comparePlaces query (placesOf q' (Walk.unlessRoot packet r' (walk packet k r')).parts) >>=
          fun same => if same then (Walk.unlessRoot packet r' (walk packet k r')).ending.result
            else .ends 1 := by
      intro q' r'
      rw [unlessRoot, Walk.unlessRoot, readByte]
      cases packet r' with
      | none => rfl
      | some c =>
        simp only [ends_bind]
        split
        · rfl
        · exact ih q' r'
    rw [compareLoop, walk]
    cases hr : packet r with
    | none =>
      rw [readByte, hr]
      rfl
    | some n =>
      rw [readByte, hr]
      dsimp only [ends_bind]
      by_cases hn : isPointer n = true
      · rw [if_pos hn, if_pos hn]
        cases hb : packet (r + 1) with
        | none =>
          rw [readByte, hb]
          rfl
        | some b =>
          rw [readByte, hb]
          dsimp only
          rw [ends_bind, pointerTarget_eq]
          by_cases hitself : b.toNat = r
          · have hne : n ≠ 0 := by
              rintro rfl
              exact absurd hn (by decide)
            rw [if_pos hitself, if_pos (by omega), hitself, unlessRoot, readByte, hr]
            dsimp only
            rw [ends_bind, if_neg hne, compareLoop_itself query packet k q r n b hr hn hb hitself]
            rfl
          · rw [if_neg hitself]
            by_cases hback : r < b.toNat
            · rw [if_neg (by omega), if_pos hback]
              rfl
            · rw [if_pos (by omega), if_neg hback]
              exact hgoOn q b.toNat
      · rw [if_neg hn, if_neg hn, compareLabel_eq]
        have hlength := labelBytes_length packet n.toNat (r + 1)
        cases hwhole : (labelBytes packet n.toNat (r + 1)).2 with
        | false =>
          simp only [Bool.false_eq_true, if_false, Walk.parts, List.nil_append, placesOf,
            List.append_nil]
          cases comparePlaces query (labelPlaces q (labelBytes packet n.toNat (r + 1)).1) with
          | more => rfl
          | outside => rfl
          | ends same => cases same <;> rfl
        | true =>
          simp only [if_true]
          rw [parts_cons, placesOf, hlength hwhole, comparePlaces_append]
          cases comparePlaces query (labelPlaces q (labelBytes packet n.toNat (r + 1)).1) with
          | more => rfl
          | outside => rfl
          | ends same =>
            cases same with
            | false => rfl
            | true => exact hgoOn (q + n.toNat + 1) (r + 1 + n.toNat)

theorem comparePlaces_true (query : Bytes) (ps : List (Nat × UInt8)) :
    comparePlaces query ps = .ends true ↔ ∀ p ∈ ps, Same query p := by
  induction ps with
  | nil => simp [comparePlaces]
  | cons p ps ih =>
    rw [comparePlaces, List.forall_mem_cons, ← ih, readByte]
    unfold Same
    cases query p.1 with
    | none => simp
    | some a =>
      simp only [ends_bind, Option.some.injEq, exists_eq_left']
      split
      · next h => simp [h]
      · next h => simp [h]

/-- The comparison finds no difference if the reading ends and each byte is that of the query. -/
theorem compareName_zero_iff (query packet : Bytes) (k r : Nat) :
    mdnsCompareName query packet k r = .ends 0 ↔ (walk packet k r).ending = .root ∧
      ∀ p ∈ placesOf 0 (walk packet k r).labels, Same query p := by
  rw [mdnsCompareName, compareLoop_eq, ← comparePlaces_true]
  cases hend : (walk packet k r).ending with
  | root =>
    have hparts : (walk packet k r).parts = (walk packet k r).labels := by rw [Walk.parts, hend]
    rw [hparts]
    cases comparePlaces query (placesOf 0 (walk packet k r).labels) with
    | more => simp
    | outside => simp
    | ends same => cases same <;> simp [Ending.result]
  | refused | itself | outside part | more =>
    cases comparePlaces query (placesOf 0 (walk packet k r).parts) with
    | more => simp
    | outside => simp
    | ends same => cases same <;> simp [Ending.result]

end walk

section spelling

/-- The bytes are in memory from an address on. -/
def Holds (m : Bytes) (a : Nat) (bytes : List UInt8) : Prop :=
  ∀ i, i < bytes.length → m (a + i) = bytes[i]?

theorem holds_nil (m : Bytes) (a : Nat) : Holds m a [] := fun _ hi => nomatch hi

theorem holds_cons (m : Bytes) (a : Nat) (c : UInt8) (cs : List UInt8) :
    Holds m a (c :: cs) ↔ m a = some c ∧ Holds m (a + 1) cs := by
  constructor
  · intro h
    refine ⟨h 0 (Nat.succ_pos _), ?_⟩
    intro i hi
    have hnext := h (i + 1) (Nat.succ_lt_succ hi)
    rwa [List.getElem?_cons_succ, Nat.add_comm i, ← Nat.add_assoc] at hnext
  · rintro ⟨hc, hcs⟩ i hi
    cases i with
    | zero => exact hc
    | succ i =>
      have hnext := hcs i (Nat.lt_of_succ_lt_succ hi)
      rwa [List.getElem?_cons_succ, Nat.add_comm i, ← Nat.add_assoc]

theorem holds_append (m : Bytes) (a : Nat) (bs cs : List UInt8) :
    Holds m a (bs ++ cs) ↔ Holds m a bs ∧ Holds m (a + bs.length) cs := by
  induction bs generalizing a with
  | nil => simp [holds_nil]
  | cons b bs ih =>
    rw [List.cons_append, holds_cons, holds_cons, ih, List.length_cons, and_assoc,
      Nat.add_assoc, Nat.add_comm 1]

theorem labelBytes_of_holds (m : Bytes) (a : Nat) (bytes : List UInt8) (h : Holds m a bytes) :
    labelBytes m bytes.length a = (bytes, true) := by
  induction bytes generalizing a with
  | nil => rfl
  | cons c cs ih =>
    rw [holds_cons] at h
    rw [List.length_cons, labelBytes, h.1, ih (a + 1) h.2]

/-- Where the two bytes of a pointer point. -/
def pointedAt (n b : UInt8) : Nat := n.toNat % 64 * 256 + b.toNat

/-- The labels that a well-formed encoded name stands for. Its pointers lead backwards, to offsets
below the limit. -/
inductive Spells (packet : Bytes) (limit : Nat) : Nat → List (List UInt8) → Prop
  | root {r : Nat} (h : packet r = some 0) : Spells packet limit r []
  | label {r : Nat} {n : UInt8} {l : List UInt8} {ls : List (List UInt8)}
      (hn : packet r = some n) (hlength : 1 ≤ n.toNat ∧ n.toNat ≤ 63)
      (hlabel : labelBytes packet n.toNat (r + 1) = (l, true))
      (hrest : Spells packet limit (r + 1 + n.toNat) ls) : Spells packet limit r (l :: ls)
  | pointer {r : Nat} {n b : UInt8} {ls : List (List UInt8)} (hn : packet r = some n)
      (hpointer : 192 ≤ n.toNat) (hb : packet (r + 1) = some b) (hback : pointedAt n b < r)
      (hlimit : pointedAt n b < limit) (hrest : Spells packet limit (pointedAt n b) ls) :
      Spells packet limit r ls

theorem spells_zero (packet : Bytes) (limit r : Nat) (ls : List (List UInt8))
    (h : Spells packet limit r ls) (hr : packet r = some 0) : ls = [] := by
  cases h with
  | root => rfl
  | label hn hlength =>
    rw [hr] at hn
    obtain rfl := Option.some.inj hn
    exact absurd hlength.1 (by decide)
  | pointer hn hpointer =>
    rw [hr] at hn
    obtain rfl := Option.some.inj hn
    exact absurd hpointer (by decide)

theorem unlessRoot_spells (packet : Bytes) (limit r : Nat) (ls : List (List UInt8)) (w : Walk)
    (h : Spells packet limit r ls) (hw : packet r ≠ some 0 → w = ⟨ls, .root⟩) :
    Walk.unlessRoot packet r w = ⟨ls, .root⟩ := by
  have hbyte : ∃ c, packet r = some c := by
    cases h with
    | root hr => exact ⟨_, hr⟩
    | label hn => exact ⟨_, hn⟩
    | pointer hn => exact ⟨_, hn⟩
  obtain ⟨c, hc⟩ := hbyte
  rw [Walk.unlessRoot, hc]
  dsimp only
  split
  · next h0 =>
    rw [spells_zero packet limit r ls h (by rw [hc, h0])]
  · next h0 =>
    apply hw
    rw [hc]
    exact fun heq => h0 (Option.some.inj heq)

/-- With pointers below 256 the labels are read as they are meant. -/
theorem walk_spells (packet : Bytes) (r : Nat) (ls : List (List UInt8))
    (h : Spells packet 256 r ls) (hr : packet r ≠ some 0) :
    ∃ k, ∀ j, walk packet (k + j) r = ⟨ls, .root⟩ := by
  induction h with
  | root h0 => exact absurd h0 hr
  | @label r n l ls hn hlength hlabel hrest ih =>
    have hplain : ¬ isPointer n = true := by
      rw [isPointer_iff]
      omega
    have hgoOn : ∃ k, ∀ j, Walk.unlessRoot packet (r + 1 + n.toNat)
        (walk packet (k + j) (r + 1 + n.toNat)) = ⟨ls, .root⟩ := by
      by_cases hzero : packet (r + 1 + n.toNat) = some 0
      · exact ⟨0, fun j => unlessRoot_spells packet 256 _ ls _ hrest fun hne => absurd hzero hne⟩
      · obtain ⟨k, hk⟩ := ih hzero
        exact ⟨k, fun j => unlessRoot_spells packet 256 _ ls _ hrest fun _ => hk j⟩
    obtain ⟨k, hk⟩ := hgoOn
    refine ⟨k + 1, ?_⟩
    intro j
    rw [Nat.add_right_comm, walk, hn]
    dsimp only
    rw [if_neg hplain, hlabel, hk j]
    rfl
  | @pointer r n b ls hn hpointer hb hback hlimit hrest ih =>
    have hlt := b.toNat_lt
    have htarget : pointedAt n b = b.toNat := by
      unfold pointedAt at hlimit ⊢
      omega
    rw [htarget] at hback hrest ih
    have hgoOn : ∃ k, ∀ j, Walk.unlessRoot packet b.toNat (walk packet (k + j) b.toNat) =
        ⟨ls, .root⟩ := by
      by_cases hzero : packet b.toNat = some 0
      · exact ⟨0, fun j => unlessRoot_spells packet 256 _ ls _ hrest fun hne => absurd hzero hne⟩
      · obtain ⟨k, hk⟩ := ih hzero
        exact ⟨k, fun j => unlessRoot_spells packet 256 _ ls _ hrest fun _ => hk j⟩
    obtain ⟨k, hk⟩ := hgoOn
    refine ⟨k + 1, ?_⟩
    intro j
    rw [Nat.add_right_comm, walk, hn]
    dsimp only
    rw [if_pos ((isPointer_iff n).mpr hpointer), hb]
    dsimp only
    rw [if_neg (by omega), if_neg (by omega), hk j]

/-- A reading that has come to an end does not change. -/
theorem walk_stable (packet : Bytes) (k r : Nat) (h : (walk packet k r).ending ≠ .more) :
    walk packet (k + 1) r = walk packet k r := by
  induction k generalizing r with
  | zero => exact absurd rfl h
  | succ k ih =>
    have hgoOn : ∀ r', (Walk.unlessRoot packet r' (walk packet k r')).ending ≠ .more →
        Walk.unlessRoot packet r' (walk packet (k + 1) r') =
          Walk.unlessRoot packet r' (walk packet k r') := by
      intro r' hr'
      unfold Walk.unlessRoot at hr' ⊢
      cases hbyte : packet r' with
      | none => rfl
      | some c =>
        rw [hbyte] at hr'
        dsimp only at hr' ⊢
        by_cases hzero : c = 0
        · rw [if_pos hzero, if_pos hzero]
        · rw [if_neg hzero] at hr'
          rw [if_neg hzero, if_neg hzero, ih r' hr']
    rw [walk] at h
    rw [walk, walk]
    cases hr : packet r with
    | none => rfl
    | some n =>
      rw [hr] at h
      dsimp only at h ⊢
      by_cases hpointer : isPointer n = true
      · rw [if_pos hpointer] at h
        rw [if_pos hpointer, if_pos hpointer]
        cases hb : packet (r + 1) with
        | none => rfl
        | some b =>
          rw [hb] at h
          dsimp only at h ⊢
          by_cases hitself : b.toNat = r
          · rw [if_pos hitself, if_pos hitself]
          · rw [if_neg hitself] at h
            rw [if_neg hitself, if_neg hitself]
            by_cases hback : r < b.toNat
            · rw [if_pos hback, if_pos hback]
            · rw [if_neg hback] at h
              rw [if_neg hback, if_neg hback]
              exact hgoOn b.toNat h
      · rw [if_neg hpointer] at h
        rw [if_neg hpointer, if_neg hpointer]
        by_cases hwhole : (labelBytes packet n.toNat (r + 1)).2 = true
        · rw [if_pos hwhole] at h
          rw [if_pos hwhole, if_pos hwhole, hgoOn _ h]
        · rw [if_neg hwhole, if_neg hwhole]

theorem walk_add (packet : Bytes) (k j r : Nat) (h : (walk packet k r).ending ≠ .more) :
    walk packet (k + j) r = walk packet k r := by
  induction j with
  | zero => rfl
  | succ j ih =>
    rw [← Nat.add_assoc, walk_stable, ih]
    rw [ih]
    exact h

end spelling

section labels

/-- Labels behind their lengths. -/
def flat (labels : List (List UInt8)) : List UInt8 :=
  labels.flatMap fun l => UInt8.ofNat l.length :: l

/-- The bytes that labels take. -/
def total (labels : List (List UInt8)) : Nat := (labels.map fun l => l.length + 1).sum

def Sized (labels : List (List UInt8)) : Prop := ∀ l ∈ labels, 1 ≤ l.length ∧ l.length ≤ 63

theorem toNat_length (l : List UInt8) (h : l.length ≤ 63) :
    (UInt8.ofNat l.length).toNat = l.length := by
  rw [UInt8.toNat_ofNat']
  omega

theorem flat_cons (l : List UInt8) (ls : List (List UInt8)) :
    flat (l :: ls) = UInt8.ofNat l.length :: (l ++ flat ls) := by
  simp [flat]

theorem total_cons (l : List UInt8) (ls : List (List UInt8)) :
    total (l :: ls) = l.length + 1 + total ls := rfl

theorem flat_length (labels : List (List UInt8)) : (flat labels).length = total labels := by
  rw [flat, List.length_flatMap]
  rfl

/-- Labels before a name that goes on behind them. -/
theorem spells_flat (m : Bytes) (limit p : Nat) (labels more : List (List UInt8))
    (hsized : Sized labels) (h : Holds m p (flat labels))
    (hmore : Spells m limit (p + total labels) more) : Spells m limit p (labels ++ more) := by
  induction labels generalizing p with
  | nil => exact hmore
  | cons l ls ih =>
    have hl := hsized l List.mem_cons_self
    have hlength := toNat_length l hl.2
    rw [flat_cons, holds_cons, holds_append] at h
    apply Spells.label h.1
    · rw [hlength]
      exact hl
    · rw [hlength]
      exact labelBytes_of_holds m (p + 1) l h.2.1
    · rw [hlength]
      apply ih _ (fun l' h' => hsized l' (List.mem_cons_of_mem _ h')) h.2.2
      rw [total_cons] at hmore
      have hplace : p + (l.length + 1 + total ls) = p + 1 + l.length + total ls := by omega
      rwa [hplace] at hmore

end labels

section deciding

variable (query packet : Bytes)

/-- More steps give no other result. -/
theorem compareLoop_stable (k q r : Nat) (h : compareLoop query packet k q r ≠ .more) :
    compareLoop query packet (k + 1) q r = compareLoop query packet k q r := by
  induction k generalizing q r with
  | zero => exact absurd rfl h
  | succ k ih =>
    have hgoOn : ∀ q' r', unlessRoot packet r' (compareLoop query packet k q' r') ≠ .more →
        unlessRoot packet r' (compareLoop query packet (k + 1) q' r') =
          unlessRoot packet r' (compareLoop query packet k q' r') := by
      intro q' r' hr'
      unfold unlessRoot at hr' ⊢
      cases hbyte : readByte packet r' with
      | more => rfl
      | outside => rfl
      | ends c =>
        rw [hbyte] at hr'
        simp only [ends_bind] at hr' ⊢
        by_cases hzero : c = 0
        · rw [if_pos hzero, if_pos hzero]
        · rw [if_neg hzero] at hr'
          rw [if_neg hzero, if_neg hzero, ih q' r' hr']
    rw [compareLoop] at h
    rw [compareLoop, compareLoop]
    cases hr : readByte packet r with
    | more => rfl
    | outside => rfl
    | ends n =>
      rw [hr] at h
      simp only [ends_bind] at h ⊢
      by_cases hpointer : isPointer n = true
      · rw [if_pos hpointer] at h
        rw [if_pos hpointer, if_pos hpointer]
        cases hb : readByte packet (r + 1) with
        | more => rfl
        | outside => rfl
        | ends b =>
          rw [hb] at h
          simp only [ends_bind] at h ⊢
          by_cases hback : pointerTarget n b < r + 1
          · rw [if_pos hback] at h
            rw [if_pos hback, if_pos hback, hgoOn q _ h]
          · rw [if_neg hback, if_neg hback]
      · rw [if_neg hpointer] at h
        rw [if_neg hpointer, if_neg hpointer]
        cases hlabel : compareLabel query packet n.toNat q (r + 1) with
        | more => rfl
        | outside => rfl
        | ends same =>
          rw [hlabel] at h
          cases same with
          | false => rfl
          | true => exact hgoOn _ _ h

theorem compareName_add (k j r : Nat) (h : mdnsCompareName query packet k r ≠ .more) :
    mdnsCompareName query packet (k + j) r = mdnsCompareName query packet k r := by
  induction j with
  | zero => rfl
  | succ j ih =>
    have hstable := compareLoop_stable query packet (k + j) 0 r
    rw [mdnsCompareName] at ih h ⊢
    rw [← Nat.add_assoc, hstable (by rw [ih]; exact h), ih]

theorem comparePlaces_more (ps : List (Nat × UInt8)) : comparePlaces query ps ≠ .more := by
  induction ps with
  | nil => exact nofun
  | cons p ps ih =>
    rw [comparePlaces, readByte]
    cases query p.1 with
    | none => exact nofun
    | some a =>
      simp only [ends_bind]
      split
      · exact ih
      · exact nofun

theorem comparePlaces_outside (ps : List (Nat × UInt8)) :
    comparePlaces query ps = .outside ↔ ∃ before p after, ps = before ++ p :: after ∧
      (∀ x ∈ before, Same query x) ∧ query p.1 = none := by
  induction ps with
  | nil => simp [comparePlaces]
  | cons p ps ih =>
    rw [comparePlaces, readByte]
    constructor
    · intro h
      cases hp : query p.1 with
      | none => exact ⟨[], p, ps, rfl, fun x hx => (nomatch hx), hp⟩
      | some a =>
        rw [hp] at h
        simp only [ends_bind] at h
        split at h
        · next hsame =>
          obtain ⟨before, x, after, rfl, hbefore, hx⟩ := ih.mp h
          refine ⟨p :: before, x, after, rfl, ?_, hx⟩
          rw [List.forall_mem_cons]
          exact ⟨⟨a, hp, hsame⟩, hbefore⟩
        · cases h
    · rintro ⟨before, x, after, hps, hbefore, hx⟩
      cases before with
      | nil =>
        obtain rfl := (List.cons.inj hps).1
        rw [hx]
        rfl
      | cons b before =>
        obtain ⟨rfl, rfl⟩ := List.cons.inj hps
        rw [List.forall_mem_cons] at hbefore
        obtain ⟨⟨a, ha, hsame⟩, hbefore⟩ := hbefore
        rw [ha]
        simp only [ends_bind]
        rw [if_pos hsame]
        exact ih.mpr ⟨before, x, after, rfl, hbefore, hx⟩

/-- The encoded name is the query as far as it is compared. -/
def Equals (r : Nat) : Prop :=
  ∃ k, (walk packet k r).ending = .root ∧
    ∀ p ∈ placesOf 0 (walk packet k r).labels, Same query p

/-- Up to the first byte that differs the comparison meets neither the end of the query nor that of
the packet, and no pointer to itself. -/
structure Decided (r : Nat) : Prop where
  inQuery : ∀ k before p after, placesOf 0 (walk packet k r).parts = before ++ p :: after →
    (∀ x ∈ before, Same query x) → query p.1 ≠ none
  inPacket : ∀ k part, (walk packet k r).ending = .outside part →
    ∃ p ∈ placesOf 0 (walk packet k r).parts, ¬ Same query p
  notItself : ∀ k, (walk packet k r).ending = .itself →
    ∃ p ∈ placesOf 0 (walk packet k r).parts, ¬ Same query p

theorem decided_of_ends (k r d : Nat) (h : mdnsCompareName query packet k r = .ends d) :
    Decided query packet r := by
  have hall : ∀ j, mdnsCompareName query packet j r = .more ∨
      mdnsCompareName query packet j r = .ends d := by
    intro j
    by_cases hmore : mdnsCompareName query packet j r = .more
    · exact .inl hmore
    · right
      rw [← compareName_add query packet j k r hmore, Nat.add_comm,
        compareName_add query packet k j r (by rw [h]; exact nofun), h]
  have hnot : ∀ j, comparePlaces query (placesOf 0 (walk packet j r).parts) ≠ .outside := by
    intro j hout
    obtain hj | hj := hall j
    · rw [mdnsCompareName, compareLoop_eq, hout] at hj
      cases hj
    · rw [mdnsCompareName, compareLoop_eq, hout] at hj
      cases hj
  have hdiffers : ∀ j, (walk packet j r).ending.result = .outside ∨
      (walk packet j r).ending = .itself →
      ∃ p ∈ placesOf 0 (walk packet j r).parts, ¬ Same query p := by
    intro j hj
    by_contra hsame
    push Not at hsame
    have htrue := (comparePlaces_true query _).mpr hsame
    have hrun := hall (k + j)
    have hresult : mdnsCompareName query packet j r = (walk packet j r).ending.result := by
      rw [mdnsCompareName, compareLoop_eq, htrue]
      rfl
    obtain hout | hitself := hj
    · rw [hout] at hresult
      have hrun := hall j
      rw [hresult] at hrun
      obtain hrun | hrun := hrun
      · cases hrun
      · cases hrun
    · have hwalk := walk_add packet j k r (by rw [hitself]; exact nofun)
      have hend : mdnsCompareName query packet (j + k) r = .more := by
        rw [mdnsCompareName, compareLoop_eq, hwalk, htrue, hitself]
        rfl
      rw [Nat.add_comm, compareName_add query packet k j r (by rw [h]; exact nofun), h] at hend
      cases hend
  refine ⟨?_, ?_, ?_⟩
  · intro j before p after hplaces hbefore hnone
    exact hnot j ((comparePlaces_outside query _).mpr ⟨before, p, after, hplaces, hbefore, hnone⟩)
  · intro j part hj
    exact hdiffers j (.inl (by rw [hj]; rfl))
  · intro j hj
    exact hdiffers j (.inr hj)

theorem unlessRoot_more {packet : Bytes} {r : Nat} {w : Walk}
    (h : (Walk.unlessRoot packet r w).ending = .more) :
    packet r ≠ some 0 ∧ Walk.unlessRoot packet r w = w := by
  rw [Walk.unlessRoot] at h ⊢
  cases hr : packet r with
  | none =>
    rw [hr] at h
    cases h
  | some c =>
    rw [hr] at h
    dsimp only at h ⊢
    by_cases hzero : c = 0
    · rw [if_pos hzero] at h
      cases h
    · exact ⟨fun heq => hzero (Option.some.inj heq), if_neg hzero⟩

/-- A walk that has not come to its end went on behind a pointer back or a whole label. -/
theorem walk_more {packet : Bytes} {k r : Nat} (hmore : (walk packet (k + 1) r).ending = .more) :
    (∃ n b : UInt8, packet r = some n ∧ isPointer n = true ∧ b.toNat < r ∧
      packet b.toNat ≠ some 0 ∧ walk packet (k + 1) r = walk packet k b.toNat) ∨
    ∃ n : UInt8, packet r = some n ∧ (labelBytes packet n.toNat (r + 1)).2 = true ∧
      packet (r + 1 + n.toNat) ≠ some 0 ∧
      walk packet (k + 1) r = { walk packet k (r + 1 + n.toNat) with
        labels := (labelBytes packet n.toNat (r + 1)).1 ::
          (walk packet k (r + 1 + n.toNat)).labels } := by
  rw [walk] at hmore ⊢
  cases hr : packet r with
  | none =>
    rw [hr] at hmore
    cases hmore
  | some n =>
    rw [hr] at hmore
    dsimp only at hmore ⊢
    by_cases hpointer : isPointer n = true
    · rw [if_pos hpointer] at hmore ⊢
      cases hb : packet (r + 1) with
      | none =>
        rw [hb] at hmore
        cases hmore
      | some b =>
        rw [hb] at hmore
        dsimp only at hmore ⊢
        by_cases hitself : b.toNat = r
        · rw [if_pos hitself] at hmore
          cases hmore
        · by_cases hback : r < b.toNat
          · rw [if_neg hitself, if_pos hback] at hmore
            cases hmore
          · rw [if_neg hitself, if_neg hback] at hmore ⊢
            obtain ⟨hroot, hw⟩ := unlessRoot_more hmore
            exact .inl ⟨n, b, rfl, hpointer, by omega, hroot, hw⟩
    · rw [if_neg hpointer] at hmore ⊢
      by_cases hwhole : (labelBytes packet n.toNat (r + 1)).2 = true
      · rw [if_pos hwhole] at hmore ⊢
        obtain ⟨hroot, hw⟩ := unlessRoot_more hmore
        exact .inr ⟨n, rfl, hwhole, hroot, by rw [hw]⟩
      · rw [if_neg hwhole] at hmore
        cases hmore

/-- What is left to be compared from a place in the query and in the packet on. -/
def left (bound q r : Nat) : Nat := (bound - q) * 257 + min r 256

theorem labelPlaces_lt (bound q : Nat) (l : List UInt8) (hbound : ∀ i, bound ≤ i → query i = none)
    (hne : l ≠ []) (hsame : ∀ p ∈ labelPlaces q l, Same query p) : q < bound := by
  obtain ⟨c, cs, rfl⟩ := List.exists_cons_of_ne_nil hne
  by_contra hle
  obtain ⟨a, ha, -⟩ := hsame (q, c) List.mem_cons_self
  rw [hbound q (Nat.not_lt.mp hle)] at ha
  cases ha

/-- As long as nothing differs, each step leaves less to be compared. -/
theorem steps_le_left (bound k q r : Nat) (hbound : ∀ i, bound ≤ i → query i = none)
    (hroot : packet r ≠ some 0) (hmore : (walk packet k r).ending = .more)
    (hsame : ∀ p ∈ placesOf q (walk packet k r).labels, Same query p) :
    k ≤ left bound q r := by
  induction k generalizing q r with
  | zero => exact Nat.zero_le _
  | succ k ih =>
    obtain ⟨n, b, -, -, hback, hb, hwalk⟩ | ⟨n, hn, hwhole, hnext, hwalk⟩ := walk_more hmore
    · rw [hwalk] at hmore hsame
      have hle := ih q b.toNat hb hmore hsame
      have hlt := b.toNat_lt
      unfold left at hle ⊢
      omega
    · rw [hwalk] at hmore hsame
      have hlength := labelBytes_length packet n.toNat (r + 1) hwhole
      rw [placesOf, List.forall_mem_append, hlength] at hsame
      have hpos : n.toNat ≠ 0 := by
        intro h0
        apply hroot
        rw [hn, ← UInt8.toNat_inj.mp (show n.toNat = (0 : UInt8).toNat from h0)]
      have hlabel : (labelBytes packet n.toNat (r + 1)).1 ≠ [] := by
        intro hnil
        rw [hnil] at hlength
        exact hpos hlength.symm
      have hq := labelPlaces_lt query bound q _ hbound hlabel hsame.1
      have hle := ih _ _ hnext hmore hsame.2
      unfold left at hle ⊢
      have hless : bound - (q + n.toNat + 1) + 1 ≤ bound - q := by omega
      have hmul := Nat.mul_le_mul_right 257 hless
      omega

/-- What is decided comes to an end. -/
theorem ends_of_decided (bound r : Nat) (hbound : ∀ i, bound ≤ i → query i = none)
    (h : Decided query packet r) : ∃ k d, mdnsCompareName query packet k r = .ends d := by
  by_contra hnever
  push Not at hnever
  have hall : ∀ k, (walk packet k r).ending = .more ∧
      ∀ p ∈ placesOf 0 (walk packet k r).labels, Same query p := by
    intro k
    have hrun := hnever k
    rw [mdnsCompareName, compareLoop_eq] at hrun
    cases hplaces : comparePlaces query (placesOf 0 (walk packet k r).parts) with
    | more => exact absurd hplaces (comparePlaces_more query _)
    | outside =>
      obtain ⟨before, p, after, hsplit, hbefore, hnone⟩ :=
        (comparePlaces_outside query _).mp hplaces
      exact absurd hnone (h.inQuery k before p after hsplit hbefore)
    | ends same =>
      rw [hplaces] at hrun
      cases same with
      | false => exact absurd rfl (hrun 1)
      | true =>
        have hsame := (comparePlaces_true query _).mp hplaces
        have hno : ¬ ∃ p ∈ placesOf 0 (walk packet k r).parts, ¬ Same query p := by
          rintro ⟨p, hp, hnot⟩
          exact hnot (hsame p hp)
        cases hend : (walk packet k r).ending with
        | root =>
          rw [hend] at hrun
          exact absurd rfl (hrun 0)
        | refused =>
          rw [hend] at hrun
          exact absurd rfl (hrun 1)
        | itself => exact absurd (h.notItself k hend) hno
        | outside part => exact absurd (h.inPacket k part hend) hno
        | more =>
          rw [Walk.parts, hend] at hsame
          exact ⟨rfl, hsame⟩
  by_cases hroot : packet r = some 0
  · -- The empty label of the root counts as one, and the comparison goes on behind it.
    obtain ⟨hend, hsame⟩ := hall (left bound 1 (r + 1) + 2)
    obtain ⟨n, b, hn, hpointer, -, -, -⟩ | ⟨n, hn, -, hnext, hwalk⟩ := walk_more hend
    · obtain rfl := Option.some.inj (hroot.symm.trans hn)
      exact absurd hpointer (by decide)
    · obtain rfl := Option.some.inj (hroot.symm.trans hn)
      rw [hwalk] at hend hsame
      rw [placesOf, List.forall_mem_append] at hsame
      have hle := steps_le_left query packet bound _ 1 (r + 1) hbound hnext hend hsame.2
      omega
  · have hk := hall (left bound 0 r + 1)
    have hle := steps_le_left query packet bound _ 0 r hbound hroot hk.1 hk.2
    omega

end deciding

end NodeMcu.Mdns.Names
