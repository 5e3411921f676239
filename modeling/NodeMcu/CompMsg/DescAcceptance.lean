import NodeMcu.CompMsg.DescFiles

namespace NodeMcu.CompMsg.DescAcceptance

open NodeMcu.Lib.Lines NodeMcu.Lib.Text NodeMcu.CompMsg.LineReader NodeMcu.CompMsg.DescFiles

variable {σ ε : Type}

/-- The lines of a file that are neither empty nor comments. -/
def handledLines (file : List UInt8) : List (List UInt8) :=
  (linesOf newLine file).filter significant

/-- The file without its empty lines and comments. -/
def strip (file : List UInt8) : List UInt8 := (handledLines file).flatten

/-- A text that `strtoul` reads to its end. -/
def IsNumber (text : List UInt8) : Prop := text ≠ [] ∧ (strtoul text).2 = []

/-- The state of the handler when it has accepted the lines that follow the first `k`. -/
def acceptAll (handleMsgLine : HandleMsgLine σ ε) (n : Int) :
    Nat → List (List UInt8) → σ → Option σ
  | _, [], s => some s
  | k, line :: rest, s =>
    let h := handleMsgLine (fieldsOf line) n (k + 1) s
    match h.1 with
    | .error _ => none
    | .ok _ => acceptAll handleMsgLine n (k + 1) rest h.2

/-- A line with the number of the others, and that many others that the handler accepts. -/
def Acceptable (handleMsgLine : HandleMsgLine σ ε) (s₀ : σ) (lines : List (List UInt8)) : Prop :=
  ∃ first text rest, lines.filter significant = first :: rest ∧
    fieldsOf first = [[hash], text] ∧ IsNumber text ∧
    (rest.length : Int) = getIntFieldValue text ∧
    (acceptAll handleMsgLine (getIntFieldValue text) 0 rest s₀).isSome = true

/-- What the function has to do with a file, whatever it finds when it is called. -/
def Law (handleMsgLine : HandleMsgLine σ ε) (s₀ : σ) (file : List UInt8) : Prop :=
  ∀ found : Found σ, found.state = s₀ →
    ∃ e e', handleMsgFileInternal handleMsgLine found file = some e ∧
      handleMsgFileInternal handleMsgLine found (strip file) = some e' ∧
      (e.code = .ok ↔ Acceptable handleMsgLine s₀ (linesOf newLine file)) ∧
      (e.code = .ok → e.final.calls = (handledLines file).tail.map fieldsOf) ∧
      (e.code = e'.code ∧ e.final.calls = e'.final.calls) ∧ e.closed = true

/-- A first line that begins with the sign for the number and has a field behind it. -/
def IsNumberLine (line : List UInt8) : Prop :=
  (fieldsOf line).headD [] = [hash] ∧ 2 ≤ (fieldsOf line).length

/-- The lines that the function gets through: empty ones and comments, a number line, and at most
as many accepted lines as it says. None has too many fields. -/
def GetsThrough (handleMsgLine : HandleMsgLine σ ε) (s₀ : σ) (lines : List (List UInt8)) : Prop :=
  (∀ line ∈ lines, tooMany line = false) ∧
    ∀ first rest, lines.filter significant = first :: rest →
      IsNumberLine first ∧ ∀ text, (fieldsOf first)[1]? = some text →
        (rest = [] ∨ (rest.length : Int) ≤ getIntFieldValue text) ∧
          (acceptAll handleMsgLine (getIntFieldValue text) 0 rest s₀).isSome = true

/-- The next line that is to be handled has too many fields, too. -/
def NextTooMany (before after : List (List UInt8)) : Prop :=
  (∃ line rest, after = line :: rest ∧ tooMany line = true) ∨
    before = [] ∧ ∃ first line rest, after = first :: line :: rest ∧ IsNumberLine first ∧
      tooMany line = true

/-- The files that the function treats as it should. -/
structure Meets (handleMsgLine : HandleMsgLine σ ε) (s₀ : σ) (lines : List (List UInt8)) :
    Prop where
  /-- A file that is to be accepted has no line with too many fields. -/
  short : Acceptable handleMsgLine s₀ lines → ∀ line ∈ lines, tooMany line = false
  /-- If the first line to be handled is reached and has not too many fields, it is a number
  line. -/
  first : ∀ before line after, lines = before ++ line :: after →
    (∀ l ∈ before, tooMany l = false ∧ significant l = false) → significant line = true →
      tooMany line = false → IsNumberLine line
  /-- A file that the function gets through has a number line and, if not fewer than the lines
  behind it, the number is theirs and alone. -/
  whole : GetsThrough handleMsgLine s₀ lines →
    ∃ first rest, lines.filter significant = first :: rest ∧
      ∀ text, (fieldsOf first)[1]? = some text → (rest.length : Int) ≤ getIntFieldValue text →
        (fieldsOf first).length = 2 ∧ IsNumber text ∧ (rest.length : Int) = getIntFieldValue text
  /-- A comment with too many fields is reached only where the next line ends the reading in the
  same way. -/
  comments : ∀ before line after, lines = before ++ line :: after →
    GetsThrough handleMsgLine s₀ before → tooMany line = true → significant line = false →
      NextTooMany (before.filter significant) (after.filter significant)

section passes

variable (unset : Option (List UInt8)) (handleMsgLine : HandleMsgLine σ ε)

/-- The reading of some lines when the file goes on behind them. -/
def passes : List (List UInt8) → Reading σ → Except (Outcome ε) (Reading σ)
  | [], s => .ok s
  | line :: rest, s =>
    match readingStep unset handleMsgLine line s with
    | .error out => .error out
    | .ok s => passes rest s

def goOn (lines : List (List UInt8)) : Except (Outcome ε) (Reading σ) → Outcome ε
  | .error out => out
  | .ok s => readLines unset handleMsgLine lines s

theorem readLines_append (pre post : List (List UInt8)) (s : Reading σ) :
    readLines unset handleMsgLine (pre ++ post) s =
      goOn unset handleMsgLine post (passes unset handleMsgLine pre s) := by
  induction pre generalizing s with
  | nil => rfl
  | cons line pre ih =>
    rw [List.cons_append, readLines, passes]
    cases readingStep unset handleMsgLine line s with
    | error out => rfl
    | ok s => exact ih s

theorem readLines_passes (lines : List (List UInt8)) (s : Reading σ) :
    readLines unset handleMsgLine lines s =
      goOn unset handleMsgLine [] (passes unset handleMsgLine lines s) := by
  have h := readLines_append unset handleMsgLine lines [] s
  rwa [List.append_nil] at h

/-- Short comments and empty lines change nothing. -/
theorem passes_filter (lines : List (List UInt8)) (s : Reading σ)
    (h : ∀ line ∈ lines, significant line = false → tooMany line = false) :
    passes unset handleMsgLine lines s =
      passes unset handleMsgLine (lines.filter significant) s := by
  induction lines generalizing s with
  | nil => rfl
  | cons line lines ih =>
    have hrest := fun s => ih s fun l hl => h l (List.mem_cons_of_mem _ hl)
    cases hsig : significant line with
    | true =>
      rw [List.filter_cons_of_pos hsig, passes, passes]
      cases readingStep unset handleMsgLine line s with
      | error out => rfl
      | ok s => exact hrest s
    | false =>
      have htoo := h line List.mem_cons_self hsig
      rw [List.filter_cons_of_neg (by rw [hsig]; decide), ← hrest s, passes, readingStep,
        if_neg (by rw [htoo]; decide), if_pos hsig]

theorem readLines_filter (lines : List (List UInt8)) (s : Reading σ)
    (h : ∀ line ∈ lines, significant line = false → tooMany line = false) :
    readLines unset handleMsgLine lines s =
      readLines unset handleMsgLine (lines.filter significant) s := by
  rw [readLines_passes, passes_filter unset handleMsgLine lines s h, ← readLines_passes]

theorem passes_counted (unset' : Option (List UInt8)) (lines : List (List UInt8))
    (s : Reading σ) (h : s.count.isSome = true) :
    passes unset handleMsgLine lines s = passes unset' handleMsgLine lines s := by
  induction lines generalizing s with
  | nil => rfl
  | cons line rest ih =>
    rw [passes, passes, readingStep_counted unset unset' handleMsgLine line s (.inl h)]
    cases hstep : readingStep unset' handleMsgLine line s with
    | error out => rfl
    | ok s' => exact ih s' (readingStep_counts unset' handleMsgLine line s s' hstep (.inl h))

/-- The errors of a line. -/
theorem readingLine_error (line : List UInt8) (s : Reading σ) (out : Outcome ε)
    (h : readingLine unset handleMsgLine line s = .error out) :
    out.code ≠ .ok ∧ out.code ≠ .tooManyLineFields ∧ (out.code = .crash → out.closed = false) ∧
      (s.count.isSome = true → out.closed = true) := by
  unfold readingLine at h
  split at h
  · next hcount =>
    split at h
    · split at h
      · obtain rfl := Except.error.inj h
        simp [hcount]
      · cases h
    · obtain rfl := Except.error.inj h
      simp [hcount]
  · split at h
    · obtain rfl := Except.error.inj h
      simp
    · dsimp only at h
      split at h
      · obtain rfl := Except.error.inj h
        simp
      · cases h

theorem readingStep_error (line : List UInt8) (s : Reading σ) (out : Outcome ε)
    (h : readingStep unset handleMsgLine line s = .error out) :
    out.code ≠ .ok ∧ (out.code = .crash → out.closed = false) ∧
      (s.count.isSome = true → out.closed = true) := by
  unfold readingStep at h
  split at h
  · obtain rfl := Except.error.inj h
    simp
  · split at h
    · cases h
    · obtain ⟨hok, -, hcrash, hclosed⟩ := readingLine_error unset handleMsgLine line s out h
      exact ⟨hok, hcrash, hclosed⟩

theorem passes_error (lines : List (List UInt8)) (s : Reading σ) (out : Outcome ε)
    (h : passes unset handleMsgLine lines s = .error out) :
    out.code ≠ .ok ∧ (out.code = .crash → out.closed = false) ∧
      (s.count.isSome = true → out.closed = true) := by
  induction lines generalizing s with
  | nil => cases h
  | cons line rest ih =>
    rw [passes] at h
    cases hstep : readingStep unset handleMsgLine line s with
    | error o =>
      rw [hstep] at h
      obtain rfl := Except.error.inj h
      exact readingStep_error unset handleMsgLine line s o hstep
    | ok s' =>
      rw [hstep] at h
      obtain ⟨hok, hcrash, hclosed⟩ := ih s' h
      refine ⟨hok, hcrash, ?_⟩
      intro hcount
      exact hclosed (readingStep_counts unset handleMsgLine line s s' hstep (.inl hcount))

theorem endOutcome_closed (s : Reading σ) :
    (endOutcome s : Outcome ε).closed = true ∧ (endOutcome s : Outcome ε).code ≠ .crash ∧
      (endOutcome s : Outcome ε).code ≠ .tooManyLineFields := by
  rw [endOutcome]
  split
  · simp
  · simp

theorem readLines_closed (lines : List (List UInt8)) (s : Reading σ)
    (h : s.count.isSome = true) : (readLines unset handleMsgLine lines s).closed = true := by
  rw [readLines_passes]
  cases hpass : passes unset handleMsgLine lines s with
  | error out => exact (passes_error unset handleMsgLine lines s out hpass).2.2 h
  | ok s' => exact (endOutcome_closed s').1

theorem readLines_crash (lines : List (List UInt8)) (s : Reading σ)
    (h : (readLines unset handleMsgLine lines s).code = .crash) :
    (readLines unset handleMsgLine lines s).closed = false := by
  rw [readLines_passes] at h ⊢
  cases hpass : passes unset handleMsgLine lines s with
  | error out =>
    rw [hpass] at h
    exact (passes_error unset handleMsgLine lines s out hpass).2.1 h
  | ok s' =>
    rw [hpass] at h
    exact absurd h (endOutcome_closed s').2.1

theorem readLines_ok_iff (lines : List (List UInt8)) (s : Reading σ) :
    (readLines unset handleMsgLine lines s).code = .ok ↔
      ∃ s', passes unset handleMsgLine lines s = .ok s' ∧
        ((s'.count.getD 0 : Nat) : Int) ≤ s'.expectedLines := by
  rw [readLines_passes]
  cases hpass : passes unset handleMsgLine lines s with
  | error out =>
    constructor
    · intro h
      exact absurd h (passes_error unset handleMsgLine lines s out hpass).1
    · rintro ⟨s', hs', -⟩
      cases hs'
  | ok s' =>
    have hend : goOn unset handleMsgLine [] (.ok s') = (endOutcome s' : Outcome ε) := rfl
    rw [hend, endOutcome]
    constructor
    · intro h
      refine ⟨s', rfl, ?_⟩
      split at h
      · cases h
      · next hle => exact Int.not_lt.mp hle
    · rintro ⟨t, ht, hle⟩
      obtain rfl := Except.ok.inj ht
      rw [if_neg (Int.not_lt.mpr hle)]

/-- The handled lines are noted behind those before. -/
theorem readingStep_calls (line : List UInt8) (s : Reading σ) :
    (∀ out, readingStep unset handleMsgLine line s = .error out →
      s.calls.length ≤ out.calls.length) ∧
    ∀ s', readingStep unset handleMsgLine line s = .ok s' → s.calls.length ≤ s'.calls.length := by
  unfold readingStep readingLine
  split
  · simp
  · split
    · simp
    · split
      · split
        · split <;> simp
        · simp
      · split
        · simp
        · dsimp only
          split <;> simp

theorem readLines_calls (lines : List (List UInt8)) (s : Reading σ) :
    s.calls.length ≤ (readLines unset handleMsgLine lines s).calls.length := by
  induction lines generalizing s with
  | nil =>
    rw [readLines, endOutcome]
    split <;> exact Nat.le_refl _
  | cons line rest ih =>
    rw [readLines]
    obtain ⟨herror, hok⟩ := readingStep_calls unset handleMsgLine line s
    cases hstep : readingStep unset handleMsgLine line s with
    | error out => exact herror out hstep
    | ok s' => exact Nat.le_trans (hok s' hstep) (ih s')

end passes

section handled

variable (unset : Option (List UInt8)) (handleMsgLine : HandleMsgLine σ ε)

theorem readingStep_handled (line : List UInt8) (s : Reading σ) (hsig : significant line = true)
    (htoo : tooMany line = false) :
    readingStep unset handleMsgLine line s = readingLine unset handleMsgLine line s := by
  rw [readingStep, if_neg (by rw [htoo]; decide), if_neg (by rw [hsig]; decide)]

theorem readingStep_tooMany (line : List UInt8) (s : Reading σ) (htoo : tooMany line = true) :
    readingStep unset handleMsgLine line s = .error ⟨.tooManyLineFields, true, s.calls⟩ :=
  if_pos htoo

/-- Behind the number line the reading gets through if the handler accepts the lines and they are
not more than the number. -/
theorem passes_iff (lines : List (List UInt8)) (s s' : Reading σ) (k : Nat)
    (hcount : s.count = some k) (hsig : ∀ line ∈ lines, significant line = true) :
    passes unset handleMsgLine lines s = .ok s' ↔
      (∀ line ∈ lines, tooMany line = false) ∧
      (lines = [] ∨ ((k + lines.length : Nat) : Int) ≤ s.expectedLines) ∧
      ∃ st, acceptAll handleMsgLine s.expectedLines k lines s.state = some st ∧
        s' = ⟨s.expectedLines, some (k + lines.length), st, s.calls ++ lines.map fieldsOf⟩ := by
  induction lines generalizing s k with
  | nil =>
    have hnil : passes unset handleMsgLine [] s = .ok s := rfl
    rw [hnil]
    constructor
    · intro h
      obtain rfl := Except.ok.inj h
      refine ⟨fun line hline => (nomatch hline), .inl rfl, s.state, rfl, ?_⟩
      rw [List.map_nil, List.append_nil, List.length_nil, Nat.add_zero, ← hcount]
    · rintro ⟨-, -, st, hst, rfl⟩
      obtain rfl := Option.some.inj hst
      rw [List.map_nil, List.append_nil, List.length_nil, Nat.add_zero, ← hcount]
  | cons line rest ih =>
    have hline := hsig line List.mem_cons_self
    rw [passes]
    cases htoo : tooMany line with
    | true =>
      rw [readingStep_tooMany unset handleMsgLine line s htoo]
      constructor
      · intro h
        cases h
      · rintro ⟨hall, -⟩
        rw [hall line List.mem_cons_self] at htoo
        cases htoo
    | false =>
      rw [readingStep_handled unset handleMsgLine line s hline htoo, readingLine, hcount]
      dsimp only
      by_cases hlt : s.expectedLines < k + 1
      · rw [if_pos hlt]
        constructor
        · intro h
          cases h
        · rintro ⟨-, hle, -⟩
          rw [List.length_cons] at hle
          have := hle.resolve_left (List.cons_ne_nil _ _)
          push_cast at this
          omega
      · rw [if_neg hlt, acceptAll]
        cases (handleMsgLine (fieldsOf line) s.expectedLines (k + 1) s.state).1 with
        | error e => simp
        | ok u =>
          dsimp only
          rw [ih _ (k + 1) rfl fun l hl => hsig l (List.mem_cons_of_mem _ hl)]
          dsimp only
          have hnumber : k + 1 + rest.length = k + (rest.length + 1) := by omega
          rw [List.forall_mem_cons, List.length_cons, List.map_cons, List.append_assoc,
            List.singleton_append, hnumber]
          have hlen : rest = [] ∨ ((k + (rest.length + 1) : Nat) : Int) ≤ s.expectedLines ↔
              ((k + (rest.length + 1) : Nat) : Int) ≤ s.expectedLines := by
            constructor
            · rintro (rfl | hle)
              · push_cast
                simp only [List.length_nil]
                omega
              · exact hle
            · exact Or.inr
          rw [hlen]
          simp [htoo]

/-- A reading that ends at a line with too many fields before it has handled another. -/
theorem nextTooMany_of_counted (lines : List (List UInt8)) (s : Reading σ)
    (hcount : s.count.isSome = true) (hsig : ∀ line ∈ lines, significant line = true)
    (hcode : (readLines unset handleMsgLine lines s).code = .tooManyLineFields)
    (hcalls : (readLines unset handleMsgLine lines s).calls = s.calls) :
    ∃ line rest, lines = line :: rest ∧ tooMany line = true := by
  obtain ⟨k, hk⟩ := Option.isSome_iff_exists.mp hcount
  cases lines with
  | nil => exact absurd hcode (endOutcome_closed s).2.2
  | cons line rest =>
    refine ⟨line, rest, rfl, ?_⟩
    by_contra hfits
    have htoo : tooMany line = false := by simpa using hfits
    rw [readLines, readingStep_handled unset handleMsgLine line s (hsig line List.mem_cons_self)
      htoo] at hcode hcalls
    cases hstep : readingLine unset handleMsgLine line s with
    | error out =>
      rw [hstep] at hcode
      exact (readingLine_error unset handleMsgLine line s out hstep).2.1 hcode
    | ok s' =>
      rw [hstep] at hcalls
      have hle := readLines_calls unset handleMsgLine rest s'
      rw [hcalls] at hle
      rw [readingLine, hk] at hstep
      dsimp only at hstep
      split at hstep
      · cases hstep
      · split at hstep
        · cases hstep
        · obtain rfl := Except.ok.inj hstep
          rw [List.length_append, List.length_singleton] at hle
          omega

/-- The reading of a number line. -/
theorem readingStep_numberLine (line text : List UInt8) (s : Reading σ)
    (hsig : significant line = true) (htoo : tooMany line = false) (hcount : s.count = none)
    (hhash : (fieldsOf line).headD [] = [hash]) (htext : (fieldsOf line)[1]? = some text) :
    readingStep unset handleMsgLine line s =
      .ok { s with expectedLines := getIntFieldValue text, count := some 0 } := by
  rw [readingStep_handled unset handleMsgLine line s hsig htoo, readingLine, hcount]
  dsimp only
  rw [if_pos hhash, numberText, htext]

theorem IsNumberLine.text (line : List UInt8) (h : IsNumberLine line) :
    ∃ text, (fieldsOf line)[1]? = some text :=
  ⟨_, List.getElem?_eq_getElem (Nat.lt_of_succ_le h.2)⟩

theorem passes_numberLine (line text : List UInt8) (rest : List (List UInt8)) (s : Reading σ)
    (hsig : significant line = true) (htoo : tooMany line = false) (hcount : s.count = none)
    (hhash : (fieldsOf line).headD [] = [hash]) (htext : (fieldsOf line)[1]? = some text) :
    passes unset handleMsgLine (line :: rest) s = passes none handleMsgLine rest
      { s with expectedLines := getIntFieldValue text, count := some 0 } := by
  rw [passes, readingStep_numberLine unset handleMsgLine line text s hsig htoo hcount hhash htext]
  exact passes_counted unset handleMsgLine none rest _ rfl

theorem passes_fits (lines : List (List UInt8)) (s t : Reading σ)
    (h : passes unset handleMsgLine lines s = .ok t) : ∀ line ∈ lines, tooMany line = false := by
  induction lines generalizing s with
  | nil =>
    intro line hline
    cases hline
  | cons line rest ih =>
    rw [passes] at h
    cases htoo : tooMany line with
    | true =>
      rw [readingStep_tooMany unset handleMsgLine line s htoo] at h
      cases h
    | false =>
      cases hstep : readingStep unset handleMsgLine line s with
      | error out =>
        rw [hstep] at h
        cases h
      | ok s' =>
        rw [hstep] at h
        intro l hl
        obtain rfl | hl := List.mem_cons.mp hl
        · exact htoo
        · exact ih s' h l hl

/-- The reading of handled lines that begin with a number line, if it gets there. -/
theorem passes_start (lines : List (List UInt8)) (s : Reading σ) (hcount : s.count = none)
    (hsig : ∀ line ∈ lines, significant line = true)
    (hnum : ∀ line ∈ lines.head?, tooMany line = false → IsNumberLine line)
    (unset' : Option (List UInt8)) :
    passes unset handleMsgLine lines s = passes unset' handleMsgLine lines s ∧
      ∀ out, passes unset handleMsgLine lines s = .error out → out.closed = true := by
  cases lines with
  | nil => exact ⟨rfl, fun out h => (nomatch h)⟩
  | cons first rest =>
    cases htoo : tooMany first with
    | true =>
      have hstep := fun u => readingStep_tooMany u handleMsgLine first s htoo
      rw [passes, passes, hstep unset, hstep unset']
      refine ⟨rfl, ?_⟩
      intro out h
      obtain rfl := Except.error.inj h
      rfl
    | false =>
      have hline := hnum first rfl htoo
      obtain ⟨text, htext⟩ := hline.text
      have hpass := fun u => passes_numberLine u handleMsgLine first text rest s
        (hsig first List.mem_cons_self) htoo hcount hline.1 htext
      rw [hpass unset, hpass unset']
      refine ⟨rfl, ?_⟩
      intro out h
      exact (passes_error none handleMsgLine rest _ out h).2.2 rfl

theorem readLines_start (lines : List (List UInt8)) (s : Reading σ) (hcount : s.count = none)
    (hsig : ∀ line ∈ lines, significant line = true)
    (hnum : ∀ line ∈ lines.head?, tooMany line = false → IsNumberLine line)
    (unset' : Option (List UInt8)) :
    readLines unset handleMsgLine lines s = readLines unset' handleMsgLine lines s ∧
      (readLines unset handleMsgLine lines s).closed = true := by
  obtain ⟨hsame, hclosed⟩ := passes_start unset handleMsgLine lines s hcount hsig hnum unset'
  rw [readLines_passes unset, readLines_passes unset', ← hsame]
  cases hpass : passes unset handleMsgLine lines s with
  | error out => exact ⟨rfl, hclosed out hpass⟩
  | ok t => exact ⟨rfl, (endOutcome_closed t).1⟩

/-- What the reading of lines that the function gets through leaves. -/
theorem passes_of_getsThrough (s₀ : σ) (lines : List (List UInt8)) (s : Reading σ)
    (hcount : s.count = none) (hstate : s.state = s₀)
    (h : GetsThrough handleMsgLine s₀ lines) :
    (lines.filter significant = [] ∧ ∀ u, passes u handleMsgLine lines s = .ok s) ∨
    ∃ first rest text st, lines.filter significant = first :: rest ∧
      (fieldsOf first)[1]? = some text ∧ ∀ u, passes u handleMsgLine lines s =
        .ok ⟨getIntFieldValue text, some rest.length, st, s.calls ++ rest.map fieldsOf⟩ := by
  have hfilter := fun u => passes_filter u handleMsgLine lines s fun l hl _ => h.1 l hl
  cases hlines : lines.filter significant with
  | nil =>
    left
    refine ⟨rfl, ?_⟩
    intro u
    rw [hfilter, hlines]
    rfl
  | cons first rest =>
    right
    have hmem : ∀ l ∈ first :: rest, significant l = true ∧ tooMany l = false := by
      intro l hl
      rw [← hlines] at hl
      exact ⟨(List.mem_filter.mp hl).2, h.1 l (List.mem_filter.mp hl).1⟩
    obtain ⟨hline, hrest⟩ := h.2 first rest hlines
    obtain ⟨text, htext⟩ := hline.text
    obtain ⟨hle, haccept⟩ := hrest text htext
    obtain ⟨st, hst⟩ := Option.isSome_iff_exists.mp haccept
    refine ⟨first, rest, text, st, rfl, htext, ?_⟩
    intro u
    have hfirst := hmem first List.mem_cons_self
    rw [hfilter, hlines, passes_numberLine u handleMsgLine first text rest s hfirst.1 hfirst.2
      hcount hline.1 htext, passes_iff none handleMsgLine rest _ _ 0 rfl
      fun l hl => (hmem l (List.mem_cons_of_mem _ hl)).1]
    refine ⟨fun l hl => (hmem l (List.mem_cons_of_mem _ hl)).2, ?_, st, ?_, ?_⟩
    · rwa [Nat.zero_add]
    · rw [hstate]
      exact hst
    · rw [Nat.zero_add]

theorem getsThrough_of_passes (s₀ : σ) (lines : List (List UInt8)) (s t : Reading σ)
    (hcount : s.count = none) (hstate : s.state = s₀)
    (hnum : ∀ line ∈ (lines.filter significant).head?, tooMany line = false → IsNumberLine line)
    (h : passes unset handleMsgLine lines s = .ok t) : GetsThrough handleMsgLine s₀ lines := by
  have hfits := passes_fits unset handleMsgLine lines s t h
  refine ⟨hfits, ?_⟩
  intro first rest hlines
  have hmem : ∀ l ∈ first :: rest, significant l = true ∧ tooMany l = false := by
    intro l hl
    rw [← hlines] at hl
    exact ⟨(List.mem_filter.mp hl).2, hfits l (List.mem_filter.mp hl).1⟩
  have hfirst := hmem first List.mem_cons_self
  have hline := hnum first (by rw [hlines]; rfl) hfirst.2
  refine ⟨hline, ?_⟩
  intro text htext
  rw [passes_filter unset handleMsgLine lines s fun l hl _ => hfits l hl, hlines,
    passes_numberLine unset handleMsgLine first text rest s hfirst.1 hfirst.2 hcount hline.1 htext,
    passes_iff none handleMsgLine rest _ _ 0 rfl
      fun l hl => (hmem l (List.mem_cons_of_mem _ hl)).1] at h
  obtain ⟨-, hle, st, hst, -⟩ := h
  rw [Nat.zero_add] at hle
  rw [← hstate]
  exact ⟨hle, Option.isSome_iff_exists.mpr ⟨st, hst⟩⟩

end handled

section law

variable (handleMsgLine : HandleMsgLine σ ε)

/-- The two readings of a file, with and without its comments. -/
structure Treated (s₀ : σ) (lines : List (List UInt8)) (out out' : Outcome ε) : Prop where
  accepted : out.code = .ok ↔ Acceptable handleMsgLine s₀ lines
  calls : out.code = .ok → out.calls = (lines.filter significant).tail.map fieldsOf
  stripped : out.code = out'.code ∧ out.calls = out'.calls
  closed : out.closed = true

theorem goOn_calls (t : Reading σ) :
    (goOn (none : Option (List UInt8)) handleMsgLine [] (.ok t)).calls = t.calls := by
  have hend : goOn none handleMsgLine [] (.ok t) = (endOutcome t : Outcome ε) := rfl
  rw [hend, endOutcome]
  split <;> rfl

/-- The first handled line with the lines before it. -/
theorem exists_first (lines rest : List (List UInt8)) (first : List UInt8)
    (h : lines.filter significant = first :: rest) :
    significant first = true ∧ first ∈ lines ∧ ∃ before after, lines = before ++ first :: after ∧
      ∀ line ∈ before, significant line = false := by
  obtain ⟨before, after, hlines, hbefore, hsig, -⟩ := List.filter_eq_cons_iff.mp h
  refine ⟨hsig, ?_, before, after, hlines, fun line hline => by simpa using hbefore line hline⟩
  rw [hlines]
  exact List.mem_append_right _ List.mem_cons_self

/-- Without long comments the first line is a number line, if it is not refused. -/
theorem Meets.numberLine (s₀ : σ) (lines before after : List (List UInt8))
    (h : Meets handleMsgLine s₀ lines) (hlines : lines = before ++ after)
    (hshort : ∀ line ∈ before, significant line = false → tooMany line = false) :
    ∀ line ∈ (before.filter significant).head?, tooMany line = false → IsNumberLine line := by
  intro first hfirst htoo
  obtain ⟨rest, hrest⟩ : ∃ rest, before.filter significant = first :: rest := by
    cases hfilter : before.filter significant with
    | nil =>
      rw [hfilter] at hfirst
      cases hfirst
    | cons x xs =>
      rw [hfilter] at hfirst
      obtain rfl := Option.some.inj hfirst
      exact ⟨xs, rfl⟩
  obtain ⟨hsig, -, pre, post, hpre, hskip⟩ := exists_first before rest first hrest
  refine h.first pre first (post ++ after) ?_ ?_ hsig htoo
  · rw [hlines, hpre, List.append_assoc, List.cons_append]
  · intro l hl
    refine ⟨hshort l ?_ (hskip l hl), hskip l hl⟩
    rw [hpre]
    exact List.mem_append_left _ hl

theorem acceptable_of_ok (s₀ : σ) (lines : List (List UInt8)) (s : Reading σ)
    (hcount : s.count = none) (hstate : s.state = s₀) (hcalls : s.calls = [])
    (h : Meets handleMsgLine s₀ lines)
    (hshort : ∀ line ∈ lines, significant line = false → tooMany line = false)
    (unset : Option (List UInt8)) (hcode : (readLines unset handleMsgLine lines s).code = .ok) :
    Acceptable handleMsgLine s₀ lines ∧ (readLines unset handleMsgLine lines s).calls =
      (lines.filter significant).tail.map fieldsOf := by
  have hnum := h.numberLine handleMsgLine s₀ lines lines [] (List.append_nil lines).symm hshort
  obtain ⟨t, hpass, hle⟩ := (readLines_ok_iff unset handleMsgLine lines s).mp hcode
  have hthrough := getsThrough_of_passes unset handleMsgLine s₀ lines s t hcount hstate hnum hpass
  obtain ⟨first, rest, hlines, hwhole⟩ := h.whole hthrough
  obtain ⟨hnil, -⟩ | ⟨first', rest', text, st, hlines', htext, hall⟩ :=
    passes_of_getsThrough handleMsgLine s₀ lines s hcount hstate hthrough
  · rw [hlines] at hnil
    cases hnil
  · rw [hlines] at hlines'
    obtain ⟨rfl, rfl⟩ := List.cons.inj hlines'
    have ht := Except.ok.inj ((hall unset).symm.trans hpass)
    rw [← ht] at hle
    obtain ⟨hlen, hnumber, hequal⟩ := hwhole text htext hle
    obtain ⟨hline, hrest⟩ := hthrough.2 first rest hlines
    refine ⟨⟨first, text, rest, hlines, ?_, hnumber, hequal, (hrest text htext).2⟩, ?_⟩
    · obtain ⟨a, b, hab⟩ := List.length_eq_two.mp hlen
      have hhash := hline.1
      rw [hab] at hhash htext ⊢
      have ha : a = [hash] := hhash
      have hb : b = text := Option.some.inj htext
      rw [ha, hb]
    · rw [readLines_passes, hall unset, hlines, List.tail_cons]
      exact (goOn_calls handleMsgLine _).trans (by rw [hcalls, List.nil_append])

theorem getsThrough_of_acceptable (s₀ : σ) (lines : List (List UInt8))
    (h : Meets handleMsgLine s₀ lines) (hacc : Acceptable handleMsgLine s₀ lines) :
    GetsThrough handleMsgLine s₀ lines := by
  have hfits := h.short hacc
  obtain ⟨first, text, rest, hlines, hfields, -, hequal, haccept⟩ := hacc
  refine ⟨hfits, ?_⟩
  intro first' rest' hlines'
  rw [hlines] at hlines'
  obtain ⟨rfl, rfl⟩ := List.cons.inj hlines'
  refine ⟨⟨by rw [hfields]; rfl, by rw [hfields]; exact Nat.le_refl _⟩, ?_⟩
  intro text' htext'
  have htext : (fieldsOf first)[1]? = some text := by rw [hfields]; rfl
  obtain rfl := Option.some.inj (htext.symm.trans htext')
  exact ⟨.inr (Int.le_of_eq hequal), haccept⟩

theorem ok_of_acceptable (s₀ : σ) (lines : List (List UInt8)) (s : Reading σ)
    (hcount : s.count = none) (hstate : s.state = s₀) (h : Meets handleMsgLine s₀ lines)
    (unset : Option (List UInt8)) (hacc : Acceptable handleMsgLine s₀ lines) :
    (readLines unset handleMsgLine lines s).code = .ok := by
  have hthrough := getsThrough_of_acceptable handleMsgLine s₀ lines h hacc
  obtain ⟨first, text, rest, hlines, hfields, -, hequal, -⟩ := hacc
  have htext : (fieldsOf first)[1]? = some text := by rw [hfields]; rfl
  obtain ⟨hnil, -⟩ | ⟨first', rest', text', st, hlines', htext', hall⟩ :=
    passes_of_getsThrough handleMsgLine s₀ lines s hcount hstate hthrough
  · rw [hlines] at hnil
    cases hnil
  · rw [hlines] at hlines'
    obtain ⟨rfl, rfl⟩ := List.cons.inj hlines'
    obtain rfl := Option.some.inj (htext.symm.trans htext')
    rw [readLines_ok_iff]
    exact ⟨_, hall unset, Int.le_of_eq hequal⟩

/-- A file without long comments. -/
theorem treated_of_short (s₀ : σ) (lines : List (List UInt8)) (s : Reading σ)
    (hcount : s.count = none) (hstate : s.state = s₀) (hcalls : s.calls = [])
    (h : Meets handleMsgLine s₀ lines)
    (hshort : ∀ line ∈ lines, significant line = false → tooMany line = false)
    (unset unset' : Option (List UInt8)) :
    Treated handleMsgLine s₀ lines (readLines unset handleMsgLine lines s)
      (readLines unset' handleMsgLine (lines.filter significant) s) := by
  have hsig : ∀ line ∈ lines.filter significant, significant line = true :=
    fun line hline => (List.mem_filter.mp hline).2
  have hnum := h.numberLine handleMsgLine s₀ lines lines [] (List.append_nil lines).symm hshort
  obtain ⟨hsame, hclosed⟩ := readLines_start unset handleMsgLine _ s hcount hsig hnum unset'
  rw [← readLines_filter unset handleMsgLine lines s hshort] at hsame hclosed
  have hok := acceptable_of_ok handleMsgLine s₀ lines s hcount hstate hcalls h hshort unset
  refine ⟨⟨fun hcode => (hok hcode).1, ?_⟩, fun hcode => (hok hcode).2, ?_, hclosed⟩
  · exact ok_of_acceptable handleMsgLine s₀ lines s hcount hstate h unset
  · rw [readLines_filter unset handleMsgLine lines s hshort] at hsame ⊢
    rw [hsame]
    exact ⟨rfl, rfl⟩

/-- The first long comment. -/
theorem exists_long (lines : List (List UInt8)) :
    (∀ line ∈ lines, significant line = false → tooMany line = false) ∨
    ∃ before line after, lines = before ++ line :: after ∧ significant line = false ∧
      tooMany line = true ∧ ∀ l ∈ before, significant l = false → tooMany l = false := by
  cases hfilter : lines.filter fun l => !significant l && tooMany l with
  | nil =>
    left
    intro line hline hsig
    have hnot := List.filter_eq_nil_iff.mp hfilter line hline
    simpa [hsig] using hnot
  | cons line rest =>
    right
    obtain ⟨before, after, hlines, hbefore, hline, -⟩ := List.filter_eq_cons_iff.mp hfilter
    rw [Bool.and_eq_true, Bool.not_eq_true'] at hline
    refine ⟨before, line, after, hlines, hline.1, hline.2, ?_⟩
    intro l hl hsig
    have hnot := hbefore l hl
    simpa [hsig] using hnot

/-- A line with too many fields that comes next. -/
theorem readLines_nextTooMany (before after : List (List UInt8)) (s t : Reading σ)
    (hcount : s.count = none) (hsig : ∀ line ∈ after, significant line = true)
    (ht : before = [] → t = s) (h : NextTooMany before after) (unset : Option (List UInt8)) :
    readLines unset handleMsgLine after t = ⟨.tooManyLineFields, true, t.calls⟩ := by
  obtain ⟨line, rest, rfl, htoo⟩ | ⟨hbefore, first, line, rest, rfl, hnumber, htoo⟩ := h
  · rw [readLines, readingStep_tooMany unset handleMsgLine line t htoo]
  · obtain rfl := ht hbefore
    rw [readLines]
    cases hfirst : tooMany first with
    | true => rw [readingStep_tooMany unset handleMsgLine first t hfirst]
    | false =>
      obtain ⟨text, htext⟩ := hnumber.text
      rw [readingStep_numberLine unset handleMsgLine first text t (hsig first List.mem_cons_self)
        hfirst hcount hnumber.1 htext]
      dsimp only
      rw [readLines, readingStep_tooMany unset handleMsgLine line _ htoo]

/-- A file that is read up to a long comment. -/
theorem treated_of_long (s₀ : σ) (before after : List (List UInt8)) (line : List UInt8)
    (s : Reading σ) (hcount : s.count = none) (hstate : s.state = s₀)
    (h : Meets handleMsgLine s₀ (before ++ line :: after)) (hsig : significant line = false)
    (htoo : tooMany line = true)
    (hshort : ∀ l ∈ before, significant l = false → tooMany l = false)
    (unset unset' : Option (List UInt8)) :
    Treated handleMsgLine s₀ (before ++ line :: after)
      (readLines unset handleMsgLine (before ++ line :: after) s)
      (readLines unset' handleMsgLine ((before ++ line :: after).filter significant) s) := by
  have hnot : ¬ Acceptable handleMsgLine s₀ (before ++ line :: after) := by
    intro hacc
    have hfits := h.short hacc line (List.mem_append_right _ List.mem_cons_self)
    rw [htoo] at hfits
    cases hfits
  have hsigs : ∀ (ls : List (List UInt8)), ∀ l ∈ ls.filter significant, significant l = true :=
    fun ls l hl => (List.mem_filter.mp hl).2
  have hnum := h.numberLine handleMsgLine s₀ _ before (line :: after) rfl hshort
  obtain ⟨hsame, hclosed⟩ := passes_start unset handleMsgLine (before.filter significant) s hcount
    (hsigs before) hnum unset'
  rw [List.filter_append, List.filter_cons_of_neg (by rw [hsig]; decide),
    readLines_append, readLines_append, passes_filter unset handleMsgLine before s hshort, ← hsame]
  cases hpass : passes unset handleMsgLine (before.filter significant) s with
  | error out =>
    have hcode := (passes_error unset handleMsgLine _ s out hpass).1
    exact ⟨⟨fun hok => absurd hok hcode, fun hacc => absurd hacc hnot⟩,
      fun hok => absurd hok hcode, ⟨rfl, rfl⟩, hclosed out hpass⟩
  | ok t =>
    rw [← passes_filter unset handleMsgLine before s hshort] at hpass
    have hthrough := getsThrough_of_passes unset handleMsgLine s₀ before s t hcount hstate hnum
      hpass
    have hnext := h.comments before line after rfl hthrough htoo hsig
    have ht : before.filter significant = [] → t = s := by
      intro hnil
      rw [passes_filter unset handleMsgLine before s hshort, hnil] at hpass
      exact (Except.ok.inj hpass).symm
    have hstripped := readLines_nextTooMany handleMsgLine _ _ s t hcount (hsigs after) ht hnext
      unset'
    have hout : goOn unset handleMsgLine (line :: after) (.ok t) =
        ⟨.tooManyLineFields, true, t.calls⟩ := by
      rw [goOn, readLines, readingStep_tooMany unset handleMsgLine line t htoo]
    have hout' : goOn unset' handleMsgLine (after.filter significant) (.ok t) =
        ⟨.tooManyLineFields, true, t.calls⟩ := hstripped
    have hne : (Code.tooManyLineFields : Code ε) ≠ .ok := by
      intro heq
      cases heq
    rw [hout, hout']
    exact ⟨⟨fun hok => absurd hok hne, fun hacc => absurd hacc hnot⟩, fun hok => absurd hok hne,
      ⟨rfl, rfl⟩, rfl⟩

theorem treated_of_meets (s₀ : σ) (lines : List (List UInt8)) (s : Reading σ)
    (hcount : s.count = none) (hstate : s.state = s₀) (hcalls : s.calls = [])
    (h : Meets handleMsgLine s₀ lines) (unset unset' : Option (List UInt8)) :
    Treated handleMsgLine s₀ lines (readLines unset handleMsgLine lines s)
      (readLines unset' handleMsgLine (lines.filter significant) s) := by
  obtain hshort | ⟨before, line, after, rfl, hsig, htoo, hshort⟩ := exists_long lines
  · exact treated_of_short handleMsgLine s₀ lines s hcount hstate hcalls h hshort unset unset'
  · exact treated_of_long handleMsgLine s₀ before after line s hcount hstate h hsig htoo hshort
      unset unset'

theorem numberText_few (unset : Option (List UInt8)) (line : List UInt8)
    (hfew : (fieldsOf line).length < 2) : numberText unset line = unset := by
  rw [numberText, List.getElem?_eq_none (Nat.le_of_lt_succ hfew)]

/-- The first line to be handled is a number line if it is read without an earlier pointer. -/
theorem readingLine_first (unset : Option (List UInt8)) (s₀ : σ) (line : List UInt8) (t : Reading σ)
    (hunset : (fieldsOf line).length < 2 → unset = none)
    (h : readingLine unset handleMsgLine line ⟨0, none, s₀, []⟩ = .ok t) :
    IsNumberLine line ∧ t.calls = [] := by
  rw [readingLine] at h
  dsimp only at h
  split at h
  · next hhash =>
    refine ⟨⟨hhash, ?_⟩, ?_⟩
    · by_contra hfew
      rw [numberText_few unset line (Nat.lt_of_not_le hfew), hunset (Nat.lt_of_not_le hfew)] at h
      cases h
    · split at h
      · cases h
      · obtain rfl := Except.ok.inj h
        rfl
  · cases h

section treated

variable (s₀ : σ) (unset unset' : Option (List UInt8))

/-- The first line to be handled closes the file only if it is a number line. -/
theorem isNumberLine_of_treated (before after : List (List UInt8)) (line : List UInt8)
    (hbefore : ∀ l ∈ before, tooMany l = false ∧ significant l = false)
    (hsig : significant line = true) (htoo : tooMany line = false)
    (hunset : (fieldsOf line).length < 2 → unset' = none)
    (h : Treated handleMsgLine s₀ (before ++ line :: after)
      (readLines unset handleMsgLine (before ++ line :: after) ⟨0, none, s₀, []⟩)
      (readLines unset' handleMsgLine ((before ++ line :: after).filter significant)
        ⟨0, none, s₀, []⟩)) :
    IsNumberLine line := by
  have hskip : before.filter significant = [] :=
    List.filter_eq_nil_iff.mpr fun l hl => by rw [(hbefore l hl).2]; decide
  have hpass : ∀ u, passes u handleMsgLine before ⟨0, none, s₀, []⟩ = .ok ⟨0, none, s₀, []⟩ := by
    intro u
    rw [passes_filter u handleMsgLine before _ fun l hl _ => (hbefore l hl).1, hskip]
    rfl
  rw [List.filter_append, hskip, List.nil_append, List.filter_cons_of_pos hsig] at h
  have hclosed := h.closed
  have hcode := h.stripped.1
  rw [readLines_append, hpass] at hclosed hcode
  have hstep := fun u => readingStep_handled u handleMsgLine line ⟨0, none, s₀, []⟩ hsig htoo
  have hhash : (fieldsOf line).headD [] = [hash] := by
    by_contra hwrong
    rw [goOn, readLines, hstep, readingLine] at hclosed
    dsimp only at hclosed
    rw [if_neg hwrong] at hclosed
    cases hclosed
  refine ⟨hhash, ?_⟩
  by_contra hfew
  have hcrash : (readLines unset' handleMsgLine (line :: after.filter significant)
      ⟨0, none, s₀, []⟩).code = .crash := by
    rw [readLines, hstep, readingLine]
    dsimp only
    rw [if_pos hhash, numberText_few unset' line (Nat.lt_of_not_le hfew),
      hunset (Nat.lt_of_not_le hfew)]
  have hopen := readLines_crash unset handleMsgLine (line :: after) ⟨0, none, s₀, []⟩
    (hcode.trans hcrash)
  rw [goOn, hopen] at hclosed
  cases hclosed

/-- A file that is got through is accepted if its lines are not fewer than the number says. -/
theorem number_of_treated (lines : List (List UInt8))
    (hthrough : GetsThrough handleMsgLine s₀ lines)
    (h : Treated handleMsgLine s₀ lines (readLines unset handleMsgLine lines ⟨0, none, s₀, []⟩)
      (readLines unset' handleMsgLine (lines.filter significant) ⟨0, none, s₀, []⟩)) :
    ∃ first rest, lines.filter significant = first :: rest ∧
      ∀ text, (fieldsOf first)[1]? = some text → (rest.length : Int) ≤ getIntFieldValue text →
        (fieldsOf first).length = 2 ∧ IsNumber text ∧
          (rest.length : Int) = getIntFieldValue text := by
  obtain ⟨hnil, hall⟩ | ⟨first, rest, text, st, hlines, htext, hall⟩ :=
    passes_of_getsThrough handleMsgLine s₀ lines ⟨0, none, s₀, []⟩ rfl rfl hthrough
  · have hok := (readLines_ok_iff unset handleMsgLine lines _).mpr ⟨_, hall unset, Int.le_refl _⟩
    obtain ⟨first, -, rest, hlines, -⟩ := h.accepted.mp hok
    rw [hnil] at hlines
    cases hlines
  · refine ⟨first, rest, hlines, ?_⟩
    intro text' htext' hle
    obtain rfl := Option.some.inj (htext.symm.trans htext')
    have hok := (readLines_ok_iff unset handleMsgLine lines _).mpr ⟨_, hall unset, hle⟩
    obtain ⟨first', text', rest', hlines', hfields, hnumber, hequal, -⟩ := h.accepted.mp hok
    rw [hlines] at hlines'
    obtain ⟨rfl, rfl⟩ := List.cons.inj hlines'
    rw [hfields] at htext ⊢
    obtain rfl := Option.some.inj htext
    exact ⟨rfl, hnumber, hequal⟩

/-- Without lines before it that are handled, a long comment stands before a long line or before a
number line and a long one. -/
theorem nextTooMany_first (after : List (List UInt8))
    (hsigs : ∀ l ∈ after, significant l = true)
    (hunset : ∀ line ∈ after.head?, (fieldsOf line).length < 2 → unset' = none)
    (hcode : (readLines unset' handleMsgLine after ⟨0, none, s₀, []⟩).code = .tooManyLineFields)
    (hcalls : (readLines unset' handleMsgLine after ⟨0, none, s₀, []⟩).calls = []) :
    NextTooMany [] after := by
  cases after with
  | nil => exact absurd hcode (endOutcome_closed _).2.2
  | cons first rest =>
    cases hfirst : tooMany first with
    | true => exact .inl ⟨first, rest, rfl, hfirst⟩
    | false =>
      rw [readLines, readingStep_handled unset' handleMsgLine first _
        (hsigs first List.mem_cons_self) hfirst] at hcode hcalls
      cases hstep : readingLine unset' handleMsgLine first ⟨0, none, s₀, []⟩ with
      | error out =>
        rw [hstep] at hcode
        exact absurd hcode (readingLine_error unset' handleMsgLine first _ out hstep).2.1
      | ok t =>
        rw [hstep] at hcode hcalls
        obtain ⟨hnumber, hkept⟩ := readingLine_first handleMsgLine unset' s₀ first t
          (hunset first rfl) hstep
        obtain ⟨line, rest', hrest, htoo⟩ := nextTooMany_of_counted unset' handleMsgLine rest t
          (readingLine_counts unset' handleMsgLine first _ t hstep)
          (fun l hl => hsigs l (List.mem_cons_of_mem _ hl)) hcode (hcalls.trans hkept.symm)
        exact .inr ⟨rfl, first, line, rest', by rw [hrest], hnumber, htoo⟩

theorem nextTooMany_of_treated (before after : List (List UInt8)) (line : List UInt8)
    (hthrough : GetsThrough handleMsgLine s₀ before) (htoo : tooMany line = true)
    (hsig : significant line = false)
    (hunset : ∀ l ∈ ((before ++ line :: after).filter significant).head?,
      (fieldsOf l).length < 2 → unset' = none)
    (h : Treated handleMsgLine s₀ (before ++ line :: after)
      (readLines unset handleMsgLine (before ++ line :: after) ⟨0, none, s₀, []⟩)
      (readLines unset' handleMsgLine ((before ++ line :: after).filter significant)
        ⟨0, none, s₀, []⟩)) :
    NextTooMany (before.filter significant) (after.filter significant) := by
  have hfilter := fun u => passes_filter u handleMsgLine before ⟨0, none, s₀, []⟩
    fun l hl _ => hthrough.1 l hl
  have hsigs : ∀ l ∈ after.filter significant, significant l = true :=
    fun l hl => (List.mem_filter.mp hl).2
  obtain ⟨hcode, hcalls⟩ := h.stripped
  rw [List.filter_append, List.filter_cons_of_neg (by rw [hsig]; decide)] at hcode hcalls hunset
  rw [readLines_append, readLines_append, ← hfilter] at hcode hcalls
  obtain ⟨hnil, hall⟩ | ⟨first, rest, text, st, hlines, -, hall⟩ :=
    passes_of_getsThrough handleMsgLine s₀ before ⟨0, none, s₀, []⟩ rfl rfl hthrough
  · rw [hall, hall, goOn, goOn, readLines,
      readingStep_tooMany unset handleMsgLine line _ htoo] at hcode hcalls
    rw [hnil, List.nil_append] at hunset
    rw [hnil]
    exact nextTooMany_first handleMsgLine s₀ unset' _ hsigs hunset hcode.symm hcalls.symm
  · left
    rw [hall, hall, goOn, goOn, readLines,
      readingStep_tooMany unset handleMsgLine line _ htoo] at hcode hcalls
    exact nextTooMany_of_counted unset' handleMsgLine _ _ rfl hsigs hcode.symm hcalls.symm

/-- It is enough that the file is treated as it should when no earlier file has left a pointer and
no lines are expected. -/
theorem meets_of_treated (lines : List (List UInt8))
    (hunset : ∀ line ∈ (lines.filter significant).head?, (fieldsOf line).length < 2 →
      unset' = none)
    (h : Treated handleMsgLine s₀ lines (readLines unset handleMsgLine lines ⟨0, none, s₀, []⟩)
      (readLines unset' handleMsgLine (lines.filter significant) ⟨0, none, s₀, []⟩)) :
    Meets handleMsgLine s₀ lines where
  short := by
    intro hacc
    obtain ⟨t, hpass, -⟩ := (readLines_ok_iff unset handleMsgLine lines _).mp (h.accepted.mpr hacc)
    exact passes_fits unset handleMsgLine lines _ t hpass
  first := by
    rintro before line after rfl hbefore hsig htoo
    apply isNumberLine_of_treated handleMsgLine s₀ unset unset' before after line hbefore hsig htoo
      _ h
    apply hunset
    rw [List.filter_append, List.filter_cons_of_pos hsig,
      List.filter_eq_nil_iff.mpr fun l hl => by rw [(hbefore l hl).2]; decide]
    rfl
  whole := fun hthrough =>
    number_of_treated handleMsgLine s₀ unset unset' lines hthrough h
  comments := by
    rintro before line after rfl hthrough htoo hsig
    exact nextTooMany_of_treated handleMsgLine s₀ unset unset' before after line hthrough htoo hsig
      hunset h

end treated

theorem handledLines_strip (file : List UInt8) :
    linesOf newLine (strip file) = handledLines file :=
  linesOf_sublist newLine file _ List.filter_sublist

/-- The two runs that the law compares. -/
theorem runs (found : Found σ) (file : List UInt8)
    (hfits : ∀ line ∈ linesOf newLine file, line.length < lineBufLgth) :
    ∃ e e' unset unset', handleMsgFileInternal handleMsgLine found file = some e ∧
      handleMsgFileInternal handleMsgLine found (strip file) = some e' ∧
      e.outcome = readLines unset handleMsgLine (linesOf newLine file) (startReading found) ∧
      e'.outcome = readLines unset' handleMsgLine (handledLines file) (startReading found) ∧
      ∀ line ∈ (handledLines file).head?, (fieldsOf line).length < 2 → unset' = found.old 1 := by
  have hstrip : ∀ line ∈ linesOf newLine (strip file), line.length < lineBufLgth := by
    intro line hline
    rw [handledLines_strip] at hline
    exact hfits line (List.mem_filter.mp hline).1
  obtain ⟨e, unset, hrun, hout, -⟩ := handleMsgFileInternal_reads handleMsgLine found file hfits
  obtain ⟨e', unset', hrun', hout', hunset⟩ :=
    handleMsgFileInternal_reads handleMsgLine found (strip file) hstrip
  rw [handledLines_strip] at hout' hunset
  refine ⟨e, e', unset, unset', hrun, hrun', hout, hout', ?_⟩
  intro line hline
  apply hunset line hline
  have hmem : line ∈ handledLines file := List.mem_of_mem_head? hline
  exact (List.mem_filter.mp hmem).2

/-- A file is treated as it should if and only if it is one of those. -/
theorem descFile_law_iff (s₀ : σ) (file : List UInt8)
    (hfits : ∀ line ∈ linesOf newLine file, line.length < lineBufLgth) :
    Law handleMsgLine s₀ file ↔ Meets handleMsgLine s₀ (linesOf newLine file) := by
  constructor
  · intro h
    let found : Found σ := ⟨[], fun _ => none, 0, 0, s₀⟩
    obtain ⟨e, e', unset, unset', hrun, hrun', hout, hout', hunset⟩ :=
      runs handleMsgLine found file hfits
    obtain ⟨d, d', hd, hd', haccepted, hcalls, hstripped, hclosed⟩ := h found rfl
    obtain rfl := Option.some.inj (hrun.symm.trans hd)
    obtain rfl := Option.some.inj (hrun'.symm.trans hd')
    apply meets_of_treated handleMsgLine s₀ unset unset' (linesOf newLine file) hunset
    have hout : e.outcome = readLines unset handleMsgLine (linesOf newLine file)
        ⟨0, none, s₀, []⟩ := hout
    have hout' : e'.outcome = readLines unset' handleMsgLine
        ((linesOf newLine file).filter significant) ⟨0, none, s₀, []⟩ := hout'
    rw [← hout, ← hout']
    exact ⟨haccepted, hcalls, hstripped, hclosed⟩
  · intro h found hfound
    obtain ⟨e, e', unset, unset', hrun, hrun', hout, hout', -⟩ :=
      runs handleMsgLine found file hfits
    have htreated := treated_of_meets handleMsgLine s₀ (linesOf newLine file) (startReading found)
      rfl hfound rfl h unset unset'
    have hout' : e'.outcome = readLines unset' handleMsgLine
        ((linesOf newLine file).filter significant) (startReading found) := hout'
    rw [← hout, ← hout'] at htreated
    exact ⟨e, e', hrun, hrun', htreated.accepted, htreated.calls, htreated.stripped,
      htreated.closed⟩

/-- A handler that accepts each line. -/
def acceptLine : HandleMsgLine Unit Unit := fun _ _ _ s => (.ok (), s)

theorem law_acceptLine : Law acceptLine () [0x23, 0x2C, 0x31, 0x0A, 0x61, 0x0A] := by
  have hlines : linesOf newLine [0x23, 0x2C, 0x31, 0x0A, 0x61, 0x0A] =
      [[0x23, 0x2C, 0x31, 0x0A], [0x61, 0x0A]] := by
    decide +kernel
  have hfilter : ([[0x23, 0x2C, 0x31, 0x0A], [0x61, 0x0A]] : List (List UInt8)).filter
      significant = [[0x23, 0x2C, 0x31, 0x0A], [0x61, 0x0A]] := by
    decide +kernel
  have hfits : ∀ line ∈ ([[0x23, 0x2C, 0x31, 0x0A], [0x61, 0x0A]] : List (List UInt8)),
      tooMany line = false ∧ significant line = true := by
    decide +kernel
  have hfields : fieldsOf [0x23, 0x2C, 0x31, 0x0A] = [[0x23], [0x31]] := by decide +kernel
  refine (descFile_law_iff acceptLine () _ (by rw [hlines]; decide)).mpr ?_
  rw [hlines]
  refine ⟨fun _ line hline => (hfits line hline).1, ?_, ?_, ?_⟩
  · intro before line after hsplit hbefore _ _
    cases before with
    | nil =>
      obtain rfl := (List.cons.inj hsplit).1
      exact ⟨by rw [hfields]; rfl, by rw [hfields]; exact Nat.le_refl _⟩
    | cons l before =>
      obtain rfl := (List.cons.inj hsplit).1
      have hskip := (hbefore _ List.mem_cons_self).2
      rw [(hfits _ List.mem_cons_self).2] at hskip
      cases hskip
  · rintro -
    refine ⟨_, _, hfilter, ?_⟩
    intro text htext _
    rw [hfields] at htext ⊢
    obtain rfl := Option.some.inj htext
    refine ⟨rfl, ⟨by decide, by decide +kernel⟩, by decide +kernel⟩
  · intro before line after hsplit _ htoo _
    have hmem := hsplit ▸ List.mem_append_right before (List.mem_cons_self (a := line) (l := after))
    rw [(hfits line hmem).1] at htoo
    cases htoo

/-- A file that says two lines and has one is accepted. -/
theorem earlyEnd_not_law : ¬ Law acceptLine () [0x23, 0x2C, 0x32, 0x0A, 0x61, 0x0A] := by
  intro h
  obtain ⟨e, -, hrun, -, haccepted, -⟩ := h ⟨[], fun _ => none, 0, 0, ()⟩ rfl
  have hout : (handleMsgFileInternal acceptLine ⟨[], fun _ => none, 0, 0, ()⟩
      [0x23, 0x2C, 0x32, 0x0A, 0x61, 0x0A]).map (fun e => e.outcome.code) = some .ok := by
    decide +kernel
  rw [hrun] at hout
  obtain ⟨first, text, rest, hlines, hfields, -, hequal, -⟩ :=
    haccepted.mp (Option.some.inj hout)
  have hhandled : (linesOf newLine [0x23, 0x2C, 0x32, 0x0A, 0x61, 0x0A]).filter significant =
      [[0x23, 0x2C, 0x32, 0x0A], [0x61, 0x0A]] := by
    decide +kernel
  rw [hhandled] at hlines
  obtain ⟨rfl, rfl⟩ := List.cons.inj hlines
  have htext : fieldsOf [0x23, 0x2C, 0x32, 0x0A] = [[0x23], [0x32]] := by decide +kernel
  rw [htext] at hfields
  obtain rfl : [0x32] = text := (List.cons.inj (List.cons.inj hfields).2).1
  revert hequal
  decide +kernel

end law

end NodeMcu.CompMsg.DescAcceptance
