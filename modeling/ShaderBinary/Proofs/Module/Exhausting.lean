import ShaderBinary.Proofs.Module.Loading

/-!
# Sources that would be exhausted where they fail

A source that fails once nothing more arrives can be compared with one that brings the same and is then
exhausted. Whatever is answered without a failure on the way, from one call for bytes to a whole module, is
answered alike by the other one: `Module.load_exhausting`. The converse does not hold, as the other one may
go on where the first one fails.

Nothing is assumed about what arrives. In particular a call may bring an empty piece.
-/

namespace ShaderBinary

open Wire

namespace Wire

/-! ## Reads -/

theorem gatherFrom_exhausting {ending : Ending} {arrivals left : List Arrival} {room : Nat}
    {got bytes : List UInt8} (h : Source.gatherFrom ending arrivals room got = (.ok bytes, left)) :
    Source.gatherFrom .exhausted arrivals room got = (.ok bytes, left) := by
  induction arrivals generalizing room got with
  | nil =>
      cases room with
      | zero => exact h
      | succ room =>
          cases ending with
          | exhausted => exact h
          | failing reason => cases h
  | cons first later ih =>
      cases room with
      | zero =>
          rw [Source.gatherFrom] at h ⊢
          exact h
      | succ room =>
          cases first with
          | interruption =>
              rw [Source.gatherFrom] at h ⊢
              exact ih h
          | piece brought =>
              rw [Source.gatherFrom] at h ⊢
              -- Only where a piece is used up does the ending matter for what is gathered after it.
              generalize brought.take (room + 1) = taken at h ⊢
              generalize brought.drop (room + 1) = rest at h ⊢
              rcases taken with _ | ⟨byte, more⟩
              · exact h
              · rcases rest with _ | ⟨next, others⟩
                · exact ih h
                · exact h

/-- The source that brings the same and is then exhausted. -/
def Source.exhausting (source : Source) : Source :=
  { source with ending := .exhausted }

/-- The input whose source is exhausted where the input's own may fail. -/
def Input.exhausting (input : Input) : Input :=
  { input with source := input.source.exhausting }

/-- The frames of the input whose source is exhausted where the input's own may fail. -/
def FrameInput.exhausting (frames : FrameInput) : FrameInput :=
  { frames with input := frames.input.exhausting }

theorem Source.gather_exhausting {source later : Source} {count : Nat} {bytes : List UInt8}
    (h : source.gather count = (.ok bytes, later)) :
    source.exhausting.gather count = (.ok bytes, later.exhausting) := by
  unfold gather at h
  rcases hread : gatherFrom source.ending source.arrivals count [] with ⟨outcome, arrivals⟩
  rw [hread] at h
  cases h
  unfold gather exhausting
  rw [gatherFrom_exhausting hread]

namespace Input

variable {input next : Input} {count : Nat}

theorem bytes?_exhausting {found : Option (List UInt8)}
    (h : input.bytes? count = (.ok found, next)) :
    input.exhausting.bytes? count = (.ok found, next.exhausting) := by
  unfold bytes? at h
  rcases hgather : input.source.gather count with ⟨reason | got, source⟩
  · rw [hgather] at h
    cases h
  · have hsame : input.exhausting.source.gather count = (.ok got, source.exhausting) :=
      Source.gather_exhausting hgather
    simp only [hgather] at h
    unfold bytes?
    simp only [hsame]
    split at h
    · next hall =>
      cases h
      rw [if_pos hall]
      rfl
    · next hall =>
      rw [if_neg hall]
      split at h
      · next hnone =>
        cases h
        rw [if_pos hnone]
        rfl
      · cases h

theorem wordsAfter_exhausting {taken : List Word} {found : Option (List Word)}
    (h : wordsAfter taken count input = (.ok found, next)) :
    wordsAfter taken count input.exhausting = (.ok found, next.exhausting) := by
  induction count generalizing taken input with
  | zero =>
      cases h
      rfl
  | succ count ih =>
      rw [wordsAfter] at h ⊢
      rcases hread : input.bytes? 4 with ⟨failure | _ | octets, after⟩
      · rw [hread] at h
        cases h
      · rw [hread] at h
        rw [bytes?_exhausting hread]
        simp only at h ⊢
        split at h
        · next hnone =>
          cases h
          rw [if_pos hnone]
        · cases h
      · rw [hread] at h
        rw [bytes?_exhausting hread]
        exact ih h

theorem words_exhausting {found : List Word} (h : input.words count = (.ok found, next)) :
    input.exhausting.words count = (.ok found, next.exhausting) := by
  rw [words, words?] at h ⊢
  rcases hread : wordsAfter [] count input with ⟨failure | _ | given, after⟩
  · rw [hread] at h
    cases h
  · rw [hread] at h
    cases h
  · rw [hread] at h
    cases h
    rw [wordsAfter_exhausting hread]

theorem fill_exhausting {size position : Nat} {hroom : position + count ≤ size}
    {buffer filled : Vector Word size}
    (h : input.fill position count hroom buffer = (.ok (), filled, next)) :
    input.exhausting.fill position count hroom buffer = (.ok (), filled, next.exhausting) := by
  induction count generalizing position buffer input with
  | zero =>
      cases h
      rfl
  | succ count ih =>
      rw [fill] at h ⊢
      rcases hread : input.bytes? 4 with ⟨failure | _ | octets, after⟩
      · rw [hread] at h
        cases h
      · rw [hread] at h
        cases h
      · rw [hread] at h
        rw [bytes?_exhausting hread]
        exact ih h

theorem frameInto_exhausting {first : Word} {later : Nat} {scratch buffer : Array Word}
    {found : List Word} (h : input.frameInto first later scratch = (.ok found, buffer, next)) :
    input.exhausting.frameInto first later scratch = (.ok found, buffer, next.exhausting) := by
  unfold frameInto at h ⊢
  simp only at h ⊢
  generalize hfill : input.fill 1 later _ _ = result at h
  obtain ⟨failure | _, filled, last⟩ := result
  · cases h
  · rw [fill_exhausting hfill]
    cases h
    rfl

end Input

theorem FrameInput.next?_exhausting {frames next : FrameInput} {found : Option (List Word)}
    (h : frames.next? = (.ok found, next)) :
    frames.exhausting.next? = (.ok found, next.exhausting) := by
  obtain ⟨input, start, scratch⟩ := frames
  unfold next? Input.words? at h
  rcases hread : Input.wordsAfter [] 1 input with ⟨failure | given, after⟩
  · simp only [hread] at h
    cases h
  · have hsame : Input.wordsAfter [] 1 input.exhausting = (.ok given, after.exhausting) :=
      Input.wordsAfter_exhausting hread
    unfold next? Input.words? exhausting
    simp only [hread] at h
    simp only [hsame]
    -- Only one word makes a first word; with any other number there is no frame.
    rcases given with _ | _ | ⟨first, _ | ⟨second, more⟩⟩
    case some.cons.nil =>
      simp only at h ⊢
      cases hcount : Frame.wordsOf first with
      | zero =>
          simp only [hcount] at h
          cases h
      | succ count =>
          simp only [hcount] at h ⊢
          rcases hlater : after.frameInto first count scratch with ⟨failure | words, buffer, last⟩
          · simp only [hlater] at h
            cases h
          · simp only [hlater] at h
            simp only [Input.frameInto_exhausting hlater]
            cases h
            rfl
    all_goals
      cases h
      rfl

end Wire

/-! ## Modules -/

theorem Header.read_exhausting {input next : Input} {header : Header}
    (h : Header.read input = (.ok header, next)) :
    Header.read input.exhausting = (.ok header, next.exhausting) := by
  unfold Header.read at h ⊢
  rcases hmagic : input.bytes? 4 with ⟨failure | _ | octets, after⟩
  · rw [hmagic] at h
    cases h
  · rw [hmagic] at h
    cases h
  · rw [hmagic] at h
    rw [Input.bytes?_exhausting hmagic]
    simp only at h ⊢
    cases horder : orderOf (ByteOrder.big.toWord octets) with
    | error failure =>
        simp only [horder] at h
        cases h
    | ok order =>
        simp only [horder] at h ⊢
        rcases hwords : Input.words 4 { after with order := order } with ⟨failure | words, last⟩
        · rw [hwords] at h
          cases h
        · have hsame : Input.words 4 { after.exhausting with order := order } =
              (.ok words, last.exhausting) := Input.words_exhausting hwords
          rw [hwords] at h
          rw [hsame]
          rcases words with _ | ⟨version, _ | ⟨generator, _ | ⟨bound, _ | ⟨reserved,
            _ | ⟨other, more⟩⟩⟩⟩⟩
          case cons.cons.cons.cons.nil =>
            simp only at h ⊢
            split at h
            · next hversion =>
              cases h
              rw [if_pos hversion]
            · cases h
          all_goals
            cases h

namespace Loading

variable {dialect : Dialect} {loading next : Loading}

/-- The loading whose source is exhausted where the loading's own may fail. -/
def exhausting (loading : Loading) : Loading :=
  { loading with frames := loading.frames.exhausting }

theorem instruction?_exhausting {found : Option Instruction}
    (h : loading.instruction? dialect = (.ok found, next)) :
    loading.exhausting.instruction? dialect = (.ok found, next.exhausting) := by
  rw [instruction?, frame?_eq] at h
  rcases hread : loading.frames.next? with ⟨failure | _ | words, after⟩
  · rw [hread] at h
    cases h
  · have hsame : loading.exhausting.frames.next? = (.ok none, after.exhausting) :=
      FrameInput.next?_exhausting hread
    rw [hread] at h
    rw [instruction?, frame?_eq, hsame]
    cases h
    rfl
  · have hsame : loading.exhausting.frames.next? = (.ok (some words), after.exhausting) :=
      FrameInput.next?_exhausting hread
    simp only [hread] at h
    rw [instruction?, frame?_eq]
    simp only [hsame]
    cases hdecode : dialect.decode words with
    | error failure =>
        simp only [hdecode] at h
        cases h
    | ok instruction =>
        simp only [hdecode] at h ⊢
        cases h
        rfl

theorem drainAfter_exhausting {bound : Nat} {taken code : List Instruction}
    (h : drainAfter dialect bound taken loading = (code, none, next)) :
    drainAfter dialect bound taken loading.exhausting = (code, none, next.exhausting) := by
  induction bound generalizing taken loading with
  | zero =>
      cases h
      rfl
  | succ bound ih =>
      rw [drainAfter] at h ⊢
      rcases hread : loading.instruction? dialect with ⟨failure | _ | instruction, after⟩
      · rw [hread] at h
        cases h
      · rw [hread] at h
        rw [instruction?_exhausting hread]
        cases h
        rfl
      · rw [hread] at h
        rw [instruction?_exhausting hread]
        exact ih h

theorem drain_exhausting {code : List Instruction} (h : loading.drain dialect = (code, none, next)) :
    loading.exhausting.drain dialect = (code, none, next.exhausting) :=
  drainAfter_exhausting h

end Loading

/-- A module that is loaded from a source is also loaded if the source is exhausted where it may fail. -/
theorem Module.load_exhausting {dialect : Dialect} {source : Source} {module : Module}
    (h : load dialect source = .ok module) : load dialect source.exhausting = .ok module := by
  rcases hread : Header.read (.ofSource source) with ⟨failure | header, next⟩
  · rw [load_of_read_error hread] at h
    cases h
  · have hsame : Header.read (.ofSource source.exhausting) = (.ok header, next.exhausting) :=
      Header.read_exhausting hread
    rw [load_of_read hread] at h
    rcases hdrain : Loading.drain dialect ⟨.ofInput next, 0⟩ with ⟨code, _ | failure, last⟩
    · have hlater : Loading.drain dialect ⟨.ofInput next.exhausting, 0⟩ =
          (code, none, last.exhausting) := Loading.drain_exhausting hdrain
      rw [hdrain] at h
      rw [load_of_read hsame, hlater]
      exact h
    · rw [hdrain] at h
      cases h

end ShaderBinary
