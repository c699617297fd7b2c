import ShaderBinary.Dialect
import ShaderBinary.Proofs.Operand.Rereading

/-!
# Reading operands comes to an end

`Shape.read` gives every list a bound on its elements. `Shape.Runs` is reading without one: a list goes on
for as long as words remain, and an execution is a finite derivation, so that there is one only if every loop
in it ends. It counts how often the lists at each depth go round.

* `readList_eq_of_le`: a bound that is not below the number of words never ends a list, so that reading
  a list is a loop (`Shape.read_list_of_ok`, `Shape.read_list_of_error`).
* `Shape.exists_runs`, `Shape.read_of_runs`: every operand can be read without a bound, and this is what
  `Shape.read` does.
* `Shape.rounds_le_of_runs`: at each depth, no more elements are read than there were words.
* `Shape.explains_of_read`: where reading fails, what remains shows why.

`Shape.read_finishes` puts this together for a reader that stands at some position among its words.
-/

namespace ShaderBinary
namespace Operand

/-! ## The loop of a list -/

section ReadList

variable {α : Type} {read : List Word → Reading α}

/-- What was taken before stays in front. -/
theorem readList_eq_map (bound : Nat) (taken : List α) (given : List Word) :
    readList read bound taken given =
      Reading.map (taken.reverse ++ ·) (readList read bound [] given) := by
  induction bound generalizing taken given with
  | zero => simp [readList, Reading.map]
  | succ bound ih =>
      cases given with
      | nil => simp [readList, Reading.map]
      | cons w later =>
          rw [readList, readList]
          rcases read (w :: later) with ⟨lack | value, remaining⟩
          · rfl
          · simp only
            rw [ih (value :: taken), ih [value]]
            rcases readList read bound [] remaining with ⟨_ | _, _⟩ <;> simp [Reading.map]

/-- The bound makes no difference as long as it is not below the number of words. -/
theorem readList_eq_of_le
    (hread : ∀ {w : Word} {given : List Word} {value : α} {rest : List Word},
      read (w :: given) = (.ok value, rest) → rest.length < (w :: given).length)
    {bound limit : Nat} {given : List Word} (hbound : given.length ≤ bound)
    (hlimit : given.length ≤ limit) (taken : List α) :
    readList read bound taken given = readList read limit taken given := by
  induction bound generalizing limit given taken with
  | zero =>
      obtain rfl := List.eq_nil_of_length_eq_zero (Nat.le_zero.mp hbound)
      cases limit <;> simp [readList]
  | succ bound ih =>
      cases given with
      | nil => cases limit <;> simp [readList]
      | cons w later =>
          obtain ⟨limit, rfl⟩ : ∃ less, limit = less + 1 :=
            ⟨limit - 1, by rw [List.length_cons] at hlimit; omega⟩
          rw [readList, readList]
          rcases hfirst : read (w :: later) with ⟨lack | value, remaining⟩
          · rfl
          · have hprogress := hread hfirst
            exact ih (by omega) (by omega) (value :: taken)

end ReadList

/-! ## One operand after another -/

section ReadBoth

variable {α β : Type} {first : List Word → Reading α} {second : List Word → Reading β}
  {given remaining rest : List Word} {lack : Lack}

/-- Reads one thing after another. -/
def readBoth (first : List Word → Reading α) (second : List Word → Reading β) (given : List Word) :
    Reading (α × β) :=
  match first given with
  | (.error lack, remaining) => (.error lack, remaining)
  | (.ok value, remaining) => Reading.map (Prod.mk value) (second remaining)

theorem readBoth_of_error (h : first given = (.error lack, remaining)) :
    readBoth first second given = (.error lack, remaining) := by
  rw [readBoth, h]

theorem readBoth_of_ok {value : α} (h : first given = (.ok value, remaining)) :
    readBoth first second given = Reading.map (Prod.mk value) (second remaining) := by
  rw [readBoth, h]

theorem Reading.map_eq_error {f : α → β} {reading : Reading α}
    (h : Reading.map f reading = (.error lack, remaining)) : reading = (.error lack, remaining) := by
  obtain ⟨outcome, left⟩ := reading
  cases outcome with
  | error found => cases h; rfl
  | ok value => cases h

/-- The first of two operands fails, or the second one does with what the first one left. -/
theorem readBoth_eq_error (h : readBoth first second given = (.error lack, remaining)) :
    first given = (.error lack, remaining) ∨
      ∃ value left, first given = (.ok value, left) ∧ second left = (.error lack, remaining) := by
  rcases hfirst : first given with ⟨found | value, left⟩
  · rw [readBoth_of_error hfirst] at h
    cases h
    exact .inl rfl
  · rw [readBoth_of_ok hfirst] at h
    exact .inr ⟨value, left, rfl, Reading.map_eq_error h⟩

theorem readBoth_eq_ok {values : α × β} (h : readBoth first second given = (.ok values, rest)) :
    ∃ left, first given = (.ok values.1, left) ∧ second left = (.ok values.2, rest) := by
  rcases hfirst : first given with ⟨found | value, left⟩
  · rw [readBoth_of_error hfirst] at h
    cases h
  · rw [readBoth_of_ok hfirst] at h
    obtain ⟨other, hsecond, rfl⟩ := Reading.map_eq_ok h
    exact ⟨left, rfl, hsecond⟩

end ReadBoth

namespace Shape

variable {shape element first second : Shape} {w : Word} {given later rest remaining : List Word}
  {lack : Lack}

/-- A read that starts with words left leaves fewer. -/
theorem length_lt_of_read {value : shape.Value} (h : shape.read (w :: later) = (.ok value, rest)) :
    rest.length < (w :: later).length := by
  have hlength := length_of_read h
  have hwords := List.length_pos_iff.mpr (words_ne_nil_of_read h)
  omega

/-- A list fails where an element fails. -/
theorem read_list_of_error (h : element.read (w :: later) = (.error lack, remaining)) :
    (list element).read (w :: later) = (.error lack, remaining) := by
  rw [Shape.read, List.length_cons, readList, h]

/-- Behind an element a list goes on with what remains. -/
theorem read_list_of_ok {value : element.Value}
    (h : element.read (w :: later) = (.ok value, remaining)) :
    (list element).read (w :: later) =
      Reading.map (value :: ·) ((list element).read remaining) := by
  have hprogress := length_lt_of_read h
  rw [Shape.read, List.length_cons, readList, h]
  simp only
  rw [readList_eq_map, Shape.read,
    readList_eq_of_le length_lt_of_read (Nat.lt_succ_iff.mp hprogress) (Nat.le_refl _)]
  rfl

theorem read_pair (first second : Shape) (given : List Word) :
    (pair first second).read given = readBoth first.read second.read given := by
  rw [Shape.read, readBoth]
  rcases first.read given with ⟨_ | _, _⟩ <;> rfl

/-! ## Executions -/

/-- No list was read. -/
def noRounds : Nat → Nat :=
  fun _ => 0

/-- The rounds of one thing after another. -/
def allRounds (rounds more : Nat → Nat) : Nat → Nat :=
  fun depth => rounds depth + more depth

/-- One element more at the outermost depth, and what was done for it one level deeper. -/
def deeper (rounds : Nat → Nat) : Nat → Nat
  | 0 => 1
  | depth + 1 => rounds depth

/-- An execution of reading: `shape.Runs given rounds result` if reading `shape` from the words `given` ends
with `result`, and the lists at each depth read `rounds depth` elements in all, one that fails included. -/
inductive Runs : (shape : Shape) → List Word → (Nat → Nat) → Reading shape.Value → Prop
  | word (given : List Word) : Runs .word given noRounds (readWord given)
  | id (given : List Word) : Runs .id given noRounds (Reading.map Id.mk (readWord given))
  | text (given : List Word) : Runs .text given noRounds (readText given)
  | selector (vocabulary : Vocabulary) (given : List Word) :
      Runs (.selector vocabulary) given noRounds (Reading.map Selector.mk (readWord given))
  | mask (flagSet : FlagSet) (given : List Word) :
      Runs (.mask flagSet) given noRounds (Reading.map Mask.mk (readWord given))
  /-- Nothing is there to be read. -/
  | absent (inner : Shape) : Runs (.optional inner) [] noRounds (.ok none, [])
  | present {inner : Shape} {w : Word} {later : List Word} {rounds : Nat → Nat}
      {result : Reading inner.Value} (h : Runs inner (w :: later) rounds result) :
      Runs (.optional inner) (w :: later) rounds (Reading.map some result)
  /-- A list ends where no word remains. -/
  | listEnds (element : Shape) : Runs (.list element) [] noRounds (.ok [], [])
  | listFails {element : Shape} {w : Word} {later remaining : List Word} {rounds : Nat → Nat}
      {lack : Lack} (h : Runs element (w :: later) rounds (.error lack, remaining)) :
      Runs (.list element) (w :: later) (deeper rounds) (.error lack, remaining)
  /-- While a word remains, a list reads an element and goes round again. -/
  | listGoesOn {element : Shape} {w : Word} {later remaining : List Word} {rounds more : Nat → Nat}
      {value : element.Value} {result : Reading (List element.Value)}
      (h : Runs element (w :: later) rounds (.ok value, remaining))
      (hlater : Runs (.list element) remaining more result) :
      Runs (.list element) (w :: later) (allRounds (deeper rounds) more) (Reading.map (value :: ·) result)
  | pairFails {first : Shape} (second : Shape) {given remaining : List Word} {rounds : Nat → Nat}
      {lack : Lack} (h : Runs first given rounds (.error lack, remaining)) :
      Runs (.pair first second) given rounds (.error lack, remaining)
  | pairGoesOn {first second : Shape} {given remaining : List Word} {rounds more : Nat → Nat}
      {value : first.Value} {result : Reading second.Value}
      (h : Runs first given rounds (.ok value, remaining))
      (hlater : Runs second remaining more result) :
      Runs (.pair first second) given (allRounds rounds more) (Reading.map (Prod.mk value) result)

/-- Every operand can be read without a bound on its lists. -/
theorem exists_runs (shape : Shape) (given : List Word) :
    ∃ rounds, shape.Runs given rounds (shape.read given) := by
  induction shape generalizing given with
  | word => exact ⟨noRounds, .word given⟩
  | id => exact ⟨noRounds, .id given⟩
  | text => exact ⟨noRounds, .text given⟩
  | selector vocabulary => exact ⟨noRounds, .selector vocabulary given⟩
  | mask flagSet => exact ⟨noRounds, .mask flagSet given⟩
  | optional inner ih =>
      cases given with
      | nil => exact ⟨noRounds, .absent inner⟩
      | cons w later =>
          obtain ⟨rounds, hruns⟩ := ih (w :: later)
          exact ⟨rounds, .present hruns⟩
  | list element ih =>
      -- Fewer words remain after each element.
      induction hcount : given.length using Nat.strong_induction_on generalizing given with
      | _ count ihCount =>
          cases given with
          | nil => exact ⟨noRounds, .listEnds element⟩
          | cons w later =>
              obtain ⟨rounds, hruns⟩ := ih (w :: later)
              rcases hread : element.read (w :: later) with ⟨lack | value, remaining⟩
              · rw [hread] at hruns
                rw [read_list_of_error hread]
                exact ⟨deeper rounds, .listFails hruns⟩
              · rw [hread] at hruns
                have hprogress := length_lt_of_read hread
                obtain ⟨more, hmore⟩ := ihCount remaining.length (by omega) remaining rfl
                rw [read_list_of_ok hread]
                exact ⟨allRounds (deeper rounds) more, .listGoesOn hruns hmore⟩
  | pair first second ihFirst ihSecond =>
      obtain ⟨rounds, hruns⟩ := ihFirst given
      rcases hread : first.read given with ⟨lack | value, remaining⟩
      · rw [hread] at hruns
        rw [read_pair, readBoth_of_error hread]
        exact ⟨rounds, .pairFails second hruns⟩
      · rw [hread] at hruns
        obtain ⟨more, hmore⟩ := ihSecond remaining
        rw [read_pair, readBoth_of_ok hread]
        exact ⟨allRounds rounds more, .pairGoesOn hruns hmore⟩

/-- Every execution ends as reading with a bound does. -/
theorem read_of_runs {rounds : Nat → Nat} {result : Reading shape.Value}
    (h : shape.Runs given rounds result) : shape.read given = result := by
  induction h with
  | word | id | text | selector | mask | absent | listEnds => rfl
  | present h ih => rw [Shape.read, ih]
  | listFails h ih => exact read_list_of_error ih
  | listGoesOn h hlater ih ihLater => rw [read_list_of_ok ih, ihLater]
  | pairFails second h ih => rw [read_pair, readBoth_of_error ih]
  | pairGoesOn h hlater ih ihLater => rw [read_pair, readBoth_of_ok ih, ihLater]

/-- How many words a reading that brought a value left. -/
def unread {α : Type} : Reading α → Nat
  | (.ok _, remaining) => remaining.length
  | (.error _, _) => 0

theorem unread_map {α β : Type} (f : α → β) (reading : Reading α) :
    unread (Reading.map f reading) = unread reading := by
  rcases reading with ⟨_ | _, _⟩ <;> rfl

theorem unread_readWord_le (given : List Word) : unread (readWord given) ≤ given.length := by
  cases given <;> simp [readWord, unread]

theorem unread_readText_le (given : List Word) : unread (readText given) ≤ given.length := by
  rcases hread : readText given with ⟨lack | string, rest⟩
  · exact Nat.zero_le _
  · obtain ⟨consumed, rfl, -⟩ := (Text.pack_of_unpack (unpack_of_readText hread)).2
    simp [unread]

/-- Every element that is read uses up a word, at each depth. -/
theorem rounds_add_unread_le {rounds : Nat → Nat} {result : Reading shape.Value}
    (h : shape.Runs given rounds result) (depth : Nat) :
    rounds depth + unread result ≤ given.length := by
  induction h generalizing depth with
  | word given => simpa [noRounds] using unread_readWord_le given
  | id given | selector vocabulary given | mask flagSet given =>
      simpa [noRounds, unread_map] using unread_readWord_le given
  | text given => simpa [noRounds] using unread_readText_le given
  | absent inner => simp [noRounds, unread]
  | present h ih => rw [unread_map]; exact ih depth
  | listEnds element => simp [noRounds, unread]
  | listFails h ih =>
      cases depth with
      | zero => simp [deeper, unread]
      | succ depth => exact ih depth
  | listGoesOn h hlater ih ihLater =>
      have hmore := ihLater depth
      rw [unread_map, allRounds]
      cases depth with
      | zero =>
          have hprogress := length_lt_of_read (read_of_runs h)
          rw [deeper]
          omega
      | succ depth =>
          have hrounds := ih depth
          rw [deeper]
          rw [unread] at hrounds
          omega
  | pairFails second h ih => exact ih depth
  | pairGoesOn h hlater ih ihLater =>
      have hrounds := ih depth
      have hmore := ihLater depth
      rw [unread] at hrounds
      rw [unread_map, allRounds]
      omega

/-- At no depth are more elements read than there were words. -/
theorem rounds_le_of_runs {rounds : Nat → Nat} {result : Reading shape.Value}
    (h : shape.Runs given rounds result) (depth : Nat) : rounds depth ≤ given.length :=
  Nat.le_of_add_right_le (rounds_add_unread_le h depth)

end Shape

/-! ## Failures -/

/-- The octets of the words start with a text in UTF-8 and the zero that ends it. -/
def StartsText (words : List Word) : Prop :=
  ∃ string : String, 0 ∉ Text.bytes string ∧
    Text.bytes string ++ [0] <+: words.flatMap Word.octets

/-- The words that remain show the reason: there are none, or they start no text. -/
def Lack.Explains : Lack → List Word → Prop
  | .words, remaining => remaining = []
  | .text, remaining => remaining ≠ [] ∧ ¬StartsText remaining

/-- A text that is there is read. -/
theorem readText_of_startsText {words : List Word} (h : StartsText words) :
    ∃ string rest, readText words = (.ok string, rest) := by
  obtain ⟨string, hnulFree, hprefix⟩ := h
  obtain ⟨rest, hunpack⟩ : ∃ rest, Text.unpack words = some (Text.bytes string, rest) :=
    ⟨_, Text.unpack_of_isPrefix hnulFree hprefix⟩
  cases words with
  | nil => cases hunpack
  | cons w later =>
      exact ⟨string, rest, by simp only [readText, hunpack, Text.ofBytes?_bytes]⟩

theorem readWord_eq_error {given remaining : List Word} {lack : Lack}
    (h : readWord given = (.error lack, remaining)) : given = [] ∧ remaining = [] ∧ lack = .words := by
  cases given with
  | nil => cases h; exact ⟨rfl, rfl, rfl⟩
  | cons w later => cases h

/-- A text that is missing or not one takes nothing. -/
theorem readText_eq_error {given remaining : List Word} {lack : Lack}
    (h : readText given = (.error lack, remaining)) : remaining = given ∧ lack.Explains given := by
  cases given with
  | nil => cases h; exact ⟨rfl, rfl⟩
  | cons w later =>
      have hfails : ¬StartsText (w :: later) := by
        intro hstarts
        obtain ⟨string, rest, hread⟩ := readText_of_startsText hstarts
        rw [h] at hread
        cases hread
      simp only [readText] at h
      split at h
      · cases h; exact ⟨rfl, List.cons_ne_nil _ _, hfails⟩
      · split at h
        · cases h; exact ⟨rfl, List.cons_ne_nil _ _, hfails⟩
        · cases h

namespace Shape

variable {shape : Shape} {given remaining : List Word} {lack : Lack}

/-- What remains is the end of what was given. -/
theorem isSuffix_of_read {value : shape.Value} (h : shape.read given = (.ok value, remaining)) :
    remaining <:+ given := by
  obtain ⟨consumed, rfl, -⟩ := words_of_read h
  exact List.suffix_append consumed remaining

/-- Where reading fails, what remains is the end of what was given and shows the reason. -/
theorem explains_of_read (h : shape.read given = (.error lack, remaining)) :
    remaining <:+ given ∧ lack.Explains remaining := by
  induction shape generalizing given with
  | word =>
      obtain ⟨rfl, rfl, rfl⟩ := readWord_eq_error h
      exact ⟨List.suffix_rfl, rfl⟩
  | id | selector | mask =>
      obtain ⟨rfl, rfl, rfl⟩ := readWord_eq_error (Reading.map_eq_error h)
      exact ⟨List.suffix_rfl, rfl⟩
  | text =>
      obtain ⟨rfl, hexplains⟩ := readText_eq_error h
      exact ⟨List.suffix_rfl, hexplains⟩
  | optional inner ih =>
      cases given with
      | nil => cases h
      | cons w later => exact ih (Reading.map_eq_error h)
  | list element ih =>
      induction hcount : given.length using Nat.strong_induction_on generalizing given with
      | _ count ihCount =>
          cases given with
          | nil => cases h
          | cons w later =>
              rcases hread : element.read (w :: later) with ⟨found | value, left⟩
              · rw [read_list_of_error hread] at h
                cases h
                exact ih hread
              · have hprogress := length_lt_of_read hread
                rw [read_list_of_ok hread] at h
                obtain ⟨hsuffix, hexplains⟩ :=
                  ihCount left.length (by omega) (Reading.map_eq_error h) rfl
                exact ⟨hsuffix.trans (isSuffix_of_read hread), hexplains⟩
  | pair first second ihFirst ihSecond =>
      rw [read_pair] at h
      rcases readBoth_eq_error h with hfirst | ⟨value, left, hfirst, hsecond⟩
      · exact ihFirst hfirst
      · obtain ⟨hsuffix, hexplains⟩ := ihSecond hsecond
        exact ⟨hsuffix.trans (isSuffix_of_read hfirst), hexplains⟩

theorem remaining_isSuffix (shape : Shape) (given : List Word) :
    (shape.read given).2 <:+ given := by
  rcases hread : shape.read given with ⟨lack | value, remaining⟩
  · exact (explains_of_read hread).1
  · exact isSuffix_of_read hread

/-- A reader that stands at some position among its words comes to an end, however deeply lists are nested
in what it reads: there is an execution without a bound on any list, and at each depth no execution reads more
elements than there were words left. It stops no earlier than it started and not behind the last word.

If it fails, the failure is for the opcode of the instruction: operands are missing exactly if it stopped
behind the last word, and otherwise there is a bad text, and none starts with the words where it stopped. -/
theorem read_finishes (shape : Shape) (opcode : Opcode) {words : List Word} {position : Nat}
    (h : position ≤ words.length) :
    (∃ rounds, shape.Runs (words.drop position) rounds (shape.read (words.drop position))) ∧
      (∀ rounds result, shape.Runs (words.drop position) rounds result →
        result = shape.read (words.drop position) ∧
          ∀ depth, rounds depth ≤ words.length - position) ∧
      ∃ stop, position ≤ stop ∧ stop ≤ words.length ∧
        (shape.read (words.drop position)).2 = words.drop stop ∧
        ∀ lack, (shape.read (words.drop position)).1 = .error lack →
          (Failure.ofLack opcode lack = .missingOperands opcode ↔ stop = words.length) ∧
          (Failure.ofLack opcode lack = .badText opcode ↔ stop < words.length) ∧
          (stop < words.length → ¬StartsText (words.drop stop)) := by
  refine ⟨shape.exists_runs _, fun rounds result hruns => ⟨(read_of_runs hruns).symm, ?_⟩, ?_⟩
  · intro depth
    simpa using rounds_le_of_runs hruns depth
  · obtain ⟨taken, htaken⟩ := shape.remaining_isSuffix (words.drop position)
    have hlength := congrArg List.length htaken
    rw [List.length_append, List.length_drop] at hlength
    have hstop : (shape.read (words.drop position)).2 = words.drop (position + taken.length) := by
      have hleft := congrArg (List.drop taken.length) htaken
      rwa [List.drop_left, List.drop_drop] at hleft
    refine ⟨position + taken.length, by omega, by omega, hstop, fun lack hlack => ?_⟩
    have hexplains : lack.Explains (words.drop (position + taken.length)) :=
      hstop ▸ (explains_of_read (Prod.ext hlack rfl)).2
    cases lack with
    | words =>
        have hend : position + taken.length = words.length := by
          have hle : words.length ≤ position + taken.length := List.drop_eq_nil_iff.mp hexplains
          omega
        simp [Failure.ofLack, hend]
    | text =>
        have hleft : position + taken.length < words.length := by
          by_contra hbeyond
          exact hexplains.1 (List.drop_eq_nil_of_le (Nat.le_of_not_lt hbeyond))
        simp only [Failure.ofLack, reduceCtorEq, false_iff, true_iff]
        exact ⟨Nat.ne_of_lt hleft, hleft, fun _ => hexplains.2⟩

/-- A list of lists stops at a text without a terminator, in its second pair. -/
theorem read_finishes_nested :
    ∃ rounds, (list (.list (.pair .id .text))).Runs [10, 0x00006261, 11, 0x64636261] rounds
        (.error .text, [0x64636261]) ∧
      (∀ depth, rounds depth ≤ 4) ∧ ¬StartsText [0x64636261] := by
  have hread : (list (.list (.pair .id .text))).read [10, 0x00006261, 11, 0x64636261] =
      (.error .text, [0x64636261]) := by decide +kernel
  obtain ⟨⟨rounds, hruns⟩, hbound, stop, -, -, hstop, hfails⟩ := read_finishes
    (list (.list (.pair .id .text))) 245
    (show 1 ≤ [9, 10, 0x00006261, 11, 0x64636261].length by decide)
  rw [List.drop_one, List.tail_cons, hread] at hruns hstop hfails
  obtain ⟨-, hbad, hstarts⟩ := hfails .text rfl
  have hleft := hstarts (hbad.mp rfl)
  rw [← hstop] at hleft
  exact ⟨rounds, hruns, (hbound rounds _ hruns).2, hleft⟩

end Shape

end Operand
end ShaderBinary
