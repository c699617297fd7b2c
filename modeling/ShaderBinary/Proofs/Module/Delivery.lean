import ShaderBinary.Proofs.Module.Decoding
import ShaderBinary.Proofs.Wire.Following
import ShaderBinary.Proofs.Wire.Requests

/-!
# Loading from a source that delivers its bytes

Two sources of the same bytes are loaded side by side: `Header.read`, `Loading.instruction?` and the run of
all instructions agree as the reads do that they are made of. So a module does not depend on the pieces in
which its bytes arrive (`Module.alike_of_delivers`), and a source that fails is not taken for one that is
exhausted (`Module.load_of_failing`).

A codec is handed whole frames. What it answers is its own affair, and it may even answer that its input
is truncated, which then has nothing to do with the source: `Dialect.TruncatesIn` says that this is what
becomes of some bytes. No codec of a signature answers so.
-/

namespace ShaderBinary

open Wire

/-! ## Headers -/

namespace Header

variable {ending : Ending} {input other : Input}

theorem read_agree (h : input.Follows ending other) :
    Agree ending (Input.Follows ending) (· ≠ .error .truncated) (· = .error .truncated)
      (Header.read input) (Header.read other) := by
  have hmagic := Input.bytes?_agree h 4
  unfold Header.read
  generalize input.bytes? 4 = result at hmagic ⊢
  generalize other.bytes? 4 = result' at hmagic ⊢
  cases hmagic with
  | cut hending hshort =>
      rcases hshort with rfl | rfl
      · exact .cut hending rfl
      · exact .cut hending rfl
  | @alike outcome next next' hfollows hkept =>
      rcases outcome with failure | _ | octets
      · exact .alike hfollows fun hending => absurd (hkept hending) (by simp)
      · exact .alike hfollows fun hending => absurd (hkept hending) (by simp)
      · cases horder : orderOf (ByteOrder.big.toWord octets) with
        | error failure =>
            simp only [horder]
            refine .alike hfollows fun _ htruncated => ?_
            rw [Except.error.inj htruncated] at horder
            cases orderOf_eq_error horder
        | ok order =>
            have hwords := Input.words_agree (hfollows.withOrder order) 4
            simp only [horder]
            generalize Input.words 4 { next with order := order } = result at hwords ⊢
            generalize Input.words 4 { next' with order := order } = result' at hwords ⊢
            cases hwords with
            | cut hending hshort =>
                rw [hshort]
                exact .cut hending rfl
            | @alike outcome _ _ hfollows hkept =>
                -- Anything but four words was read only if both sources are exhausted.
                rcases outcome with failure | _ | ⟨version, _ | ⟨generator, _ | ⟨bound, _ | ⟨reserved,
                  _ | ⟨next, more⟩⟩⟩⟩⟩
                case ok.cons.cons.cons.cons.nil =>
                  by_cases hversion : version = supportedVersion
                  · simp only [if_pos hversion]
                    exact .alike hfollows fun _ => nofun
                  · simp only [if_neg hversion]
                    exact .alike hfollows fun _ => nofun
                all_goals
                  exact .alike hfollows fun hending => absurd (hkept hending) (by simp)

end Header

/-! ## Instructions -/

namespace Dialect

/-- Items are decoded up to a frame for which a codec answers that it is truncated. -/
inductive TruncatesAmong (dialect : Dialect) : List Item → Prop
  | here {words : List Word} {later : List Item} (h : dialect.decode words = .error .truncated) :
      TruncatesAmong dialect (.frame words :: later)
  | later {words : List Word} {instruction : Instruction} {later : List Item}
      (hdecode : dialect.decode words = .ok instruction) (h : TruncatesAmong dialect later) :
      TruncatesAmong dialect (.frame words :: later)

/-- Bytes are decoded up to a frame for which a codec answers that it is truncated. -/
def TruncatesIn (dialect : Dialect) (bytes : List UInt8) : Prop :=
  ∃ (header : Header) (order : ByteOrder) (left : List UInt8), header.Supported order ∧
    bytes = header.image order ++ left ∧ dialect.TruncatesAmong (items order left)

variable {dialect : Dialect} {cut : List Item}

theorem truncatesAmong_cons_iff {words : List Word} {instruction : Instruction} {later : List Item}
    (hdecode : dialect.decode words = .ok instruction) :
    dialect.TruncatesAmong (.frame words :: later) ↔ dialect.TruncatesAmong later := by
  refine ⟨fun h => ?_, .later hdecode⟩
  cases h with
  | here hframe => cases hdecode.symm.trans hframe
  | later _ h => exact h

theorem TruncatesAmong.decodeItems_eq (h : dialect.TruncatesAmong cut) :
    dialect.decodeItems cut = .error .truncated := by
  induction h with
  | here hframe =>
      refine decodeItems_cons_of_error ?_
      simp only [decodeItem, Item.words, hframe]
      rfl
  | later hdecode _ ih =>
      rw [decodeItems_cons_of_ok (decodeItem_eq_ok_iff.mpr ⟨rfl, hdecode⟩), ih]
      rfl

/-- It is not the codecs that answer where an item is cut short. -/
theorem not_truncatesAmong_of_fallsShort (h : FallsShort (FrameInput.answer cut.head?)) :
    ¬dialect.TruncatesAmong cut := by
  rintro (_ | _) <;> rcases h with h | h <;> cases h

theorem truncatesIn_image_append_iff {header : Header} {order : ByteOrder} {left : List UInt8}
    (hsupported : header.Supported order) :
    dialect.TruncatesIn (header.image order ++ left) ↔ dialect.TruncatesAmong (items order left) := by
  refine ⟨?_, fun h => ⟨header, order, left, hsupported, rfl, h⟩⟩
  rintro ⟨header', order', left', hsupported', hbytes, h⟩
  -- The same bytes are read as the same header, and in the same order.
  have hholds : Input.Holds (.ofSource (.ofBytes (header.image order ++ left)))
      (header.image order ++ left) := ⟨rfl, delivers_ofBytes _⟩
  obtain ⟨next, hread, -, horder, -⟩ := Header.read_of_supported hsupported hholds
  rw [hbytes] at hholds
  obtain ⟨next', hread', -, horder', -⟩ := Header.read_of_supported hsupported' hholds
  rw [hbytes] at hread
  obtain ⟨-, rfl⟩ := Prod.mk.inj (hread.symm.trans hread')
  obtain rfl : order = order' := horder.symm.trans horder'
  obtain ⟨-, rfl⟩ := List.append_inj hbytes (by rw [Header.length_image, Header.length_image])
  exact h

theorem not_truncatesIn_of_read {failure : Failure} {next : Input} {bytes : List UInt8}
    (hread : Header.read (.ofSource (.ofBytes bytes)) = (.error failure, next)) :
    ¬dialect.TruncatesIn bytes := by
  rintro ⟨header, order, left, hsupported, rfl, -⟩
  obtain ⟨_, hsame, -⟩ := Header.read_of_supported hsupported
    (show Input.Holds (.ofSource (.ofBytes (header.image order ++ left))) _ from
      ⟨rfl, delivers_ofBytes _⟩)
  cases hread.symm.trans hsame

/-- Codecs of signatures never answer that a frame is truncated. -/
theorem OfSignatureCodecs.not_truncatesIn (h : dialect.OfSignatureCodecs) (bytes : List UInt8) :
    ¬dialect.TruncatesIn bytes := by
  rintro ⟨header, order, left, -, -, htruncates⟩
  generalize items order left = cut at htruncates
  induction htruncates with
  | here hframe => cases h.ofWords_of_decode hframe
  | later _ _ ih => exact ih

end Dialect

namespace Loading

variable {ending : Ending} {dialect : Dialect} {loading other : Loading} {cut : List Item}

/-- The loadings have the same bytes left, and have come as far. -/
def Follows (ending : Ending) (loading other : Loading) : Prop :=
  loading.frames.Follows ending other.frames ∧ loading.index = other.index

theorem instruction?_agree (dialect : Dialect) (h : loading.Follows ending other)
    (hfaces : other.frames.Faces cut) :
    Agree ending (Follows ending)
      (fun outcome => outcome ≠ .ok none ∧
        (outcome = .error .truncated → dialect.TruncatesAmong cut))
      (fun outcome => FallsShort outcome ∧ ¬dialect.TruncatesAmong cut)
      (loading.instruction? dialect) (other.instruction? dialect) := by
  have hframe := FrameInput.next?_agree h.1
  obtain ⟨found, hnext, -⟩ := FrameInput.next?_of_faces hfaces
  unfold instruction?
  rw [frame?_eq, frame?_eq]
  rw [hnext] at hframe ⊢
  generalize loading.frames.next? = result at hframe ⊢
  cases hframe with
  | cut hending hshort =>
      have hnot : ¬dialect.TruncatesAmong cut := Dialect.not_truncatesAmong_of_fallsShort hshort
      rcases hshort with hnone | htruncated
      · rw [hnone]
        exact .cut hending ⟨.inl rfl, hnot⟩
      · rw [htruncated]
        exact .cut hending ⟨.inr rfl, hnot⟩
  | alike hfollows hkept =>
      rcases cut with _ | ⟨words | first | bytes, later⟩
      · exact .alike ⟨hfollows, h.2⟩ fun hending => absurd rfl (hkept hending).1
      · cases hdecode : dialect.decode words with
        | error failure =>
            simp only [FrameInput.answer, List.head?_cons, Item.words, Except.map, hdecode]
            refine .alike ⟨hfollows, h.2⟩ fun _ => ⟨by simp, fun htruncated => .here ?_⟩
            rw [hdecode, Except.error.inj htruncated]
        | ok instruction =>
            simp only [FrameInput.answer, List.head?_cons, Item.words, Except.map, hdecode, h.2]
            exact .alike ⟨hfollows, rfl⟩ fun _ => ⟨by simp, by simp⟩
      · exact .alike ⟨hfollows, h.2⟩ fun _ => ⟨by simp, by simp⟩
      · exact .alike ⟨hfollows, h.2⟩ fun hending => absurd rfl (hkept hending).2

/-- The bytes left of the source that is exhausted after them. -/
theorem Follows.holds (h : loading.Follows ending other) :
    ∃ bytes, other.frames.input.Holds bytes ∧
      loading.frames.input.source.size = bytes.length ∧
      other.frames.input.source.size = bytes.length := by
  obtain ⟨⟨⟨plain, -, hinput, hother⟩, -⟩, -⟩ := h
  exact ⟨plain.left, ⟨hother.ending_eq, hother.delivers⟩, size_of_delivers hinput.delivers,
    size_of_delivers hother.delivers⟩

/-- An instruction takes at least one byte. -/
theorem size_lt_of_instruction? {bytes : List UInt8} {instruction : Instruction} {next : Loading}
    (h : loading.frames.input.Holds bytes)
    (hread : loading.instruction? dialect = (.ok (some instruction), next)) :
    next.frames.input.source.size < loading.frames.input.source.size := by
  by_cases hne : bytes = []
  · subst hne
    obtain ⟨_, hframe, -⟩ := frame?_of_nil dialect h
    rw [instruction?, hframe] at hread
    cases hread
  · have hstarts := Item.starts_first loading.frames.input.order hne
    have hsize := hstarts.size_add
    have hpos := hstarts.size_pos
    obtain ⟨_, hframe, hadvances, -⟩ := frame?_of_starts dialect h hstarts
    rw [instruction?, hframe] at hread
    rcases hitem : dialect.decodeItem (Item.first loading.frames.input.order bytes) with
      failure | found
    · rw [hitem] at hread
      cases hread
    · rw [hitem] at hread
      cases hread
      rw [size_of_delivers hadvances.holds.delivers, size_of_delivers h.delivers]
      omega

theorem drainAfter_agree (dialect : Dialect) {bound : Nat} (h : loading.Follows ending other)
    (hfaces : other.Faces cut) (hbound : other.frames.input.source.size < bound)
    (taken : List Instruction) :
    Agree ending (Follows ending)
      (fun read => ∃ failure, read = .error failure ∧
        (failure = .truncated → dialect.TruncatesAmong cut))
      (fun read => ((∃ code, read = .ok code) ∨ read = .error .truncated) ∧
        ¬dialect.TruncatesAmong cut)
      (outcome (drainAfter dialect bound taken loading))
      (outcome (drainAfter dialect bound taken other)) := by
  induction bound generalizing loading other taken cut with
  | zero => cases hbound
  | succ bound ih =>
      have hfirst := instruction?_agree dialect h hfaces
      obtain ⟨bytes, hholds, -, -⟩ := h.holds
      obtain ⟨found, hframe, hlater, -⟩ := frame?_of_faces dialect hfaces
      have hread : other.instruction? dialect =
          ((dialect.answer cut.head?).map (Option.map Prod.fst), found) := by
        rw [instruction?, hframe]
        cases dialect.answer cut.head? <;> rfl
      unfold drainAfter
      rcases cut with _ | ⟨item, later⟩
      · rw [hread] at hfirst ⊢
        generalize loading.instruction? dialect = result at hfirst ⊢
        cases hfirst with
        | cut hending hshort => exact .cut hending ⟨.inl ⟨_, rfl⟩, hshort.2⟩
        | alike hfollows hkept => exact .alike hfollows fun hending => absurd rfl (hkept hending).1
      · rcases hitem : dialect.decodeItem item with failure | ⟨instruction, words⟩
        · have hanswer : other.instruction? dialect = (.error failure, found) := by
            rw [hread, List.head?_cons, Dialect.answer, hitem]
            rfl
          rw [hanswer] at hfirst ⊢
          generalize loading.instruction? dialect = result at hfirst ⊢
          cases hfirst with
          | cut hending hshort =>
              obtain ⟨hnone | htruncated, hnot⟩ := hshort
              · cases hnone
              · exact .cut hending ⟨.inr (congrArg _ (Except.error.inj htruncated)), hnot⟩
          | alike hfollows hkept =>
              exact .alike hfollows fun hending => ⟨failure, rfl, fun htruncated =>
                (hkept hending).2 (congrArg _ htruncated)⟩
        · obtain ⟨rfl, hdecode⟩ := Dialect.decodeItem_eq_ok_iff.mp hitem
          have hanswer : other.instruction? dialect = (.ok (some instruction), found) := by
            rw [hread, List.head?_cons, Dialect.answer, hitem]
            rfl
          rw [hanswer] at hfirst ⊢
          generalize loading.instruction? dialect = result at hfirst ⊢
          cases hfirst with
          | cut hending hshort =>
              rcases hshort.1 with hnone | htruncated
              · cases hnone
              · cases htruncated
          | alike hfollows hkept =>
              -- Fewer bytes are left than before, and the bound still lasts for them.
              have hshorter := size_lt_of_instruction? hholds hanswer
              simp only [Dialect.truncatesAmong_cons_iff hdecode]
              exact ih hfollows hlater (by omega) (instruction :: taken)

end Loading

/-! ## Modules -/

namespace Module

variable {dialect : Dialect} {source : Source} {bytes : List UInt8}

/-- A module is loaded as from its bytes at hand, or the source failed where these ended. -/
theorem load_of_delivers (hdelivers : Delivers source.arrivals bytes)
    (hhonest : Honest source.ending source.arrivals) :
    (load dialect source = load dialect (.ofBytes bytes) ∧
        (source.ending ≠ .exhausted → ∃ failure, load dialect source = .error failure ∧
          (failure = .truncated → dialect.TruncatesIn bytes))) ∨
      ∃ reason, source.ending = .failing reason ∧
        load dialect source = .error (.stream reason) ∧
        ((∃ module, load dialect (.ofBytes bytes) = .ok module) ∨
          load dialect (.ofBytes bytes) = .error .truncated) ∧
        ¬dialect.TruncatesIn bytes := by
  have hfollows : Input.Follows source.ending (.ofSource source) (.ofSource (.ofBytes bytes)) :=
    ⟨⟨bytes, source.ending, .little, 0⟩, rfl, Input.presents_ofSource hdelivers hhonest .little,
      Input.presents_ofSource (delivers_ofBytes bytes) (.inl rfl) .little⟩
  have hholds : Input.Holds (.ofSource (.ofBytes bytes)) bytes := ⟨rfl, delivers_ofBytes bytes⟩
  have hheader := Header.read_agree hfollows
  rcases hread : Header.read (.ofSource source) with ⟨result, next⟩
  rcases hread' : Header.read (.ofSource (.ofBytes bytes)) with ⟨result', next'⟩
  rw [hread, hread'] at hheader
  cases hheader with
  | cut hending hshort =>
      rw [hshort] at hread'
      exact .inr ⟨_, hending, load_of_read_error hread, .inr (load_of_read_error hread'),
        Dialect.not_truncatesIn_of_read hread'⟩
  | alike hnext hkept =>
      cases result with
      | error failure =>
          rw [load_of_read_error hread, load_of_read_error hread']
          exact .inl ⟨rfl, fun hending => ⟨failure, rfl, fun htruncated =>
            absurd (congrArg _ htruncated) (hkept hending)⟩⟩
      | ok header =>
          obtain ⟨order, left, hsupported, rfl, hleft, horder⟩ := Header.image_of_read hholds hread'
          simp only [Dialect.truncatesIn_image_append_iff hsupported]
          have hloading : Loading.Follows source.ending ⟨.ofInput next, 0⟩ ⟨.ofInput next', 0⟩ :=
            ⟨⟨hnext, rfl⟩, rfl⟩
          have hfaces : Loading.Faces ⟨.ofInput next', 0⟩ (items order left) :=
            ⟨left, hleft, by rw [← horder]; rfl⟩
          obtain ⟨_, -, hsize, hsize'⟩ := hloading.holds
          have hcode := Loading.drainAfter_agree dialect hloading hfaces (Nat.lt_succ_self _) []
          rw [load_of_read hread, load_of_read hread']
          unfold Loading.drain
          rw [hsize]
          rw [hsize'] at hcode ⊢
          generalize Loading.outcome (Loading.drainAfter dialect (_ + 1) [] ⟨.ofInput next, 0⟩) =
            read at hcode ⊢
          generalize Loading.outcome (Loading.drainAfter dialect (_ + 1) [] ⟨.ofInput next', 0⟩) =
            read' at hcode ⊢
          cases hcode with
          | cut hending hshort =>
              refine .inr ⟨_, hending, rfl, ?_, hshort.2⟩
              rcases hshort.1 with ⟨code, rfl⟩ | rfl
              · exact .inl ⟨_, rfl⟩
              · exact .inr rfl
          | alike hlast hfails =>
              refine .inl ⟨rfl, fun hending => ?_⟩
              obtain ⟨failure, rfl, htruncated⟩ := hfails hending
              exact ⟨failure, rfl, htruncated⟩

theorem load_eq_load_ofBytes (hending : source.ending = .exhausted)
    (hdelivers : Delivers source.arrivals bytes) :
    load dialect source = load dialect (.ofBytes bytes) := by
  rcases load_of_delivers hdelivers (.inl hending) with ⟨hsame, -⟩ | ⟨reason, hfailing, -⟩
  · exact hsame
  · rw [hending] at hfailing
    cases hfailing

/-- How a source delivers its bytes before it is exhausted plays no part: in any sequence of requests a
reader answers, counts and goes on as if it had the bytes at hand, and the same module is loaded, or the
same failure is met. -/
theorem alike_of_delivers (hending : source.ending = .exhausted)
    (hdelivers : Delivers source.arrivals bytes) :
    (∀ order requests, Input.transcript requests ⟨source, order, 0⟩ =
        Plain.transcript requests ⟨bytes, .exhausted, order, 0⟩) ∧
      ∀ dialect, load dialect source = load dialect (.ofBytes bytes) := by
  constructor
  · intro order requests
    have hpresents := Input.presents_ofSource hdelivers (.inl hending) order
    rw [hending] at hpresents
    exact Input.transcript_of_presents hpresents requests
  · exact fun dialect => load_eq_load_ofBytes hending hdelivers

/-- The bytes of an empty module, the second word in two pieces. -/
def splitHeader : Source :=
  ⟨[.interruption, .piece [0x07, 0x23, 0x02, 0x03, 0x00], .interruption, .interruption,
    .piece [0x00, 0x01, 0x00, 0, 0, 0, 0, 0, 0, 0, 0, 0, 0, 0, 0]], .exhausted⟩

theorem delivers_splitHeader : Delivers splitHeader.arrivals splitHeader.bytes :=
  .interruption (.piece (by decide) (.interruption (.interruption (.piece (by decide) .done))))

theorem alike_splitHeader :
    Input.transcript [.bytes? 4, .words? 1, .order .big, .bytes? 0, .words 3, .words? 1]
        ⟨splitHeader, .little, 0⟩ =
      [(.bytes? (.ok (some [0x07, 0x23, 0x02, 0x03])), 4, .little),
        (.words? (.ok (some [0x00010000])), 8, .little), (.order, 8, .big),
        (.bytes? (.ok (some [])), 8, .big), (.words (.ok [0, 0, 0]), 20, .big),
        (.words? (.ok none), 20, .big)] ∧
      load .empty splitHeader = .ok empty := by
  obtain ⟨hreplies, hload⟩ := alike_of_delivers rfl delivers_splitHeader
  exact ⟨(hreplies .little _).trans (by decide), (hload .empty).trans (by decide +kernel)⟩

/-- What is answered for bytes in which a codec calls a frame truncated. -/
theorem load_of_truncatesIn (h : dialect.TruncatesIn bytes) :
    load dialect (.ofBytes bytes) = .error .truncated := by
  obtain ⟨header, order, left, hsupported, rfl, htruncates⟩ := h
  rw [load_image_append hsupported rfl (delivers_ofBytes _), htruncates.decodeItems_eq]
  rfl

/-- A source that fails after the first `k` bytes is not taken for one that is exhausted. A failure that
was met before remains. In any other case, whether the bytes would be a module or are truncated, loading
fails with the source's own reason. Only if it is a codec that calls a whole frame among these bytes
truncated, which no codec of a signature does, does its answer remain, as any other one would. And a reader
has then counted the reads that came to an end, and no bytes of the read in which the source failed. -/
theorem load_of_failing {reason : String} (k : Nat) (hending : source.ending = .failing reason)
    (hdelivers : Delivers source.arrivals (bytes.take k)) (hpieces : .piece [] ∉ source.arrivals) :
    (∀ module, load dialect source ≠ .ok module) ∧
      (∀ failure, load dialect (.ofBytes (bytes.take k)) = .error failure → failure ≠ .truncated →
        load dialect source = .error failure) ∧
      (∀ module, load dialect (.ofBytes (bytes.take k)) = .ok module →
        load dialect source = .error (.stream reason)) ∧
      (load dialect (.ofBytes (bytes.take k)) = .error .truncated →
        ¬dialect.TruncatesIn (bytes.take k) → load dialect source = .error (.stream reason)) ∧
      (dialect.TruncatesIn (bytes.take k) →
        load dialect (.ofBytes (bytes.take k)) = .error .truncated ∧
          load dialect source = .error .truncated) ∧
      (dialect.OfSignatureCodecs → ¬dialect.TruncatesIn (bytes.take k)) ∧
      ∀ order requests, (Input.after requests ⟨source, order, 0⟩).offset =
        completed (requests.flatMap Request.reads) (bytes.take k).length := by
  have hoffset (order : ByteOrder) (requests : List Request) :
      (Input.after requests ⟨source, order, 0⟩).offset =
        completed (requests.flatMap Request.reads) (bytes.take k).length := by
    rw [Input.offset_after_of_presents
      (Input.presents_ofSource hdelivers (.inr hpieces) order) hending, Nat.zero_add]
  have hsignatures (h : dialect.OfSignatureCodecs) : ¬dialect.TruncatesIn (bytes.take k) :=
    h.not_truncatesIn _
  rcases load_of_delivers hdelivers (.inr hpieces) with
    ⟨hsame, hfails⟩ | ⟨other, hother, hload, hslice, hnot⟩
  · -- Both runs met the same failure before the bytes were used up.
    obtain ⟨failure, hfailure, htruncates⟩ := hfails (by rw [hending]; exact nofun)
    refine ⟨fun module h => ?_, fun _ h _ => hsame.trans h, fun module h => ?_, fun h hnot => ?_,
      fun h => ⟨load_of_truncatesIn h, hsame.trans (load_of_truncatesIn h)⟩, hsignatures, hoffset⟩
    · cases hfailure.symm.trans h
    · cases hfailure.symm.trans (hsame.trans h)
    · exact absurd (htruncates (Except.error.inj (hfailure.symm.trans (hsame.trans h)))) hnot
  · obtain rfl : reason = other := Ending.failing.inj (hending.symm.trans hother)
    rw [hload]
    refine ⟨nofun, fun failure h hne => ?_, fun _ _ => rfl, fun _ _ => rfl, fun h => absurd h hnot,
      hsignatures, hoffset⟩
    rcases hslice with ⟨module, hmodule⟩ | htruncated
    · cases hmodule.symm.trans h
    · exact absurd (Except.error.inj (h.symm.trans htruncated)) hne

/-- A dialect with one codec, which calls everything it is handed truncated. -/
def truncating : Dialect :=
  .bind .empty 17 ⟨fun _ => .error .truncated, fun _ buffer => (.error .truncated, buffer)⟩

/-- The bytes of a module with one instruction of two words. -/
def capabilityAlone : List UInt8 :=
  (Header.ofOrder .little).image .little ++ ByteOrder.little.bytesOf [0x00020011, 1]

theorem truncatesIn_capabilityAlone : truncating.TruncatesIn capabilityAlone := by
  refine ⟨.ofOrder .little, .little, _, ⟨rfl, rfl⟩, rfl, ?_⟩
  have hannounced : ∀ frame ∈ [[0x00020011, 1]], Frame.Announced frame := by
    intro frame hframe
    obtain rfl := List.mem_singleton.mp hframe
    exact ⟨_, _, rfl, by decide⟩
  have hitems : items .little (ByteOrder.little.bytesOf [[0x00020011, 1]].flatten) = _ :=
    items_eq_map_frame_iff.mpr ⟨hannounced, rfl⟩
  rw [List.flatten_singleton] at hitems
  rw [hitems]
  exact .here rfl

/-- The source fails where a module could end, and where a codec has answered already. -/
theorem load_failingHeader :
    load .empty ⟨splitHeader.arrivals, .failing "out of reach"⟩ = .error (.stream "out of reach") ∧
      (Input.after [.bytes? 4, .words? 3, .bytes? 3, .words 5]
        ⟨⟨splitHeader.arrivals, .failing "out of reach"⟩, .little, 0⟩).offset = 19 ∧
      load truncating ⟨[.piece capabilityAlone], .failing "out of reach"⟩ = .error .truncated := by
  obtain ⟨-, -, hload, -, -, -, hoffset⟩ := @load_of_failing .empty
    ⟨splitHeader.arrivals, .failing "out of reach"⟩ (splitHeader.bytes ++ [1, 0]) _ 20 rfl
    (by rw [List.take_left' (by decide)]; exact delivers_splitHeader) (by decide)
  obtain ⟨-, -, -, -, hcodec, -, -⟩ := @load_of_failing truncating
    ⟨[.piece capabilityAlone], .failing "out of reach"⟩ (capabilityAlone ++ [1, 0]) _ 28 rfl
    (by rw [List.take_left' (by decide)]; exact delivers_ofBytes _) (by decide)
  rw [List.take_left' (by decide)] at hcodec
  exact ⟨hload empty (by decide +kernel), hoffset .little _, (hcodec truncatesIn_capabilityAlone).2⟩

/-- For all dialects alike one cannot say that what is truncated in the bytes at hand fails with the reason
of the source. A codec may be what called a frame truncated, before the source was asked for more. -/
theorem not_load_of_failing : ¬∀ (dialect : Dialect) (bytes : List UInt8) (k : Nat) (source : Source)
    (reason : String), k ≤ bytes.length → source.ending = .failing reason →
    Delivers source.arrivals (bytes.take k) → .piece [] ∉ source.arrivals →
    (∀ module, load dialect source ≠ .ok module) ∧
      (∀ failure, load dialect (.ofBytes (bytes.take k)) = .error failure → failure ≠ .truncated →
        load dialect source = .error failure) ∧
      ((∃ module, load dialect (.ofBytes (bytes.take k)) = .ok module) ∨
          load dialect (.ofBytes (bytes.take k)) = .error .truncated →
        load dialect source = .error (.stream reason)) := by
  intro h
  have htake : capabilityAlone.take 28 = capabilityAlone := List.take_of_length_le (by decide)
  have hstream := (h truncating capabilityAlone 28 ⟨[.piece capabilityAlone], .failing "out of reach"⟩
    "out of reach" (by decide) rfl (by rw [htake]; exact delivers_ofBytes _) (by decide)).2.2
    (.inr (by rw [htake]; exact load_of_truncatesIn truncatesIn_capabilityAlone))
  have hcodec : load truncating ⟨[.piece capabilityAlone], .failing "out of reach"⟩ =
      .error .truncated := by
    decide +kernel
  cases hstream.symm.trans hcodec

end Module

end ShaderBinary
