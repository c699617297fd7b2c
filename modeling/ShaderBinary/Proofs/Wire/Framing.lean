import ShaderBinary.Proofs.Wire.Frames
import ShaderBinary.Proofs.Wire.Output

/-!
# Writing frames and reading them back

`Frame.cut` is the frame at the front of words: as many of them as the first one announces. That is all
that writing depends on: words without such a frame are refused, and of any others the frame is handed
over (`Output.putFrame_eq`).

`framing_bijective` puts both directions together. What comes of writing sequences of words is read back as
the frames at their fronts, and bytes that are read as frames up to the end are written again from these.
-/

namespace ShaderBinary

/-! ## Frames at the front of words -/

namespace Frame

/-- The frame at the front of words. -/
def cut : (words : List Word) → Except Failure (List Word)
  | [] => .error (.badSize 0)
  | first :: later =>
    if 1 ≤ wordsOf first ∧ wordsOf first ≤ (first :: later).length then
      .ok ((first :: later).take (wordsOf first))
    else .error (.badSize (wordsOf first))

variable {words frame : List Word}

theorem cut_eq_ok_iff : cut words = .ok frame ↔ ∃ first later, words = first :: later ∧
    1 ≤ wordsOf first ∧ wordsOf first ≤ words.length ∧ words.take (wordsOf first) = frame := by
  cases words with
  | nil => simp [cut]
  | cons first later =>
      rw [cut]
      split
      · next hfits =>
        rw [Except.ok.injEq]
        constructor
        · rintro rfl
          exact ⟨first, later, rfl, hfits.1, hfits.2, rfl⟩
        · rintro ⟨_, _, hwords, -, -, hframe⟩
          cases hwords
          exact hframe
      · next hfits =>
        refine ⟨nofun, ?_⟩
        rintro ⟨_, _, hwords, hpos, hle, -⟩
        cases hwords
        exact absurd ⟨hpos, hle⟩ hfits

/-- Whatever is refused is refused for its size. -/
theorem failure_of_cut {failure : Failure} (h : cut words = .error failure) :
    failure = .badSize ((words.head?.map wordsOf).getD 0) := by
  cases words with
  | nil => exact (Except.error.inj h).symm
  | cons first later =>
      rw [cut] at h
      split at h
      · cases h
      · exact (Except.error.inj h).symm

theorem announced_of_cut (h : cut words = .ok frame) : Announced frame := by
  obtain ⟨first, later, rfl, hpos, hle, rfl⟩ := cut_eq_ok_iff.mp h
  obtain ⟨count, hcount⟩ : ∃ count, wordsOf first = count + 1 := ⟨wordsOf first - 1, by omega⟩
  refine ⟨first, later.take count, by rw [hcount, List.take_succ_cons], ?_⟩
  rw [List.length_cons] at hle
  rw [List.length_take, hcount]
  omega

/-- A frame is its own front. -/
theorem cut_of_announced (h : Announced frame) : cut frame = .ok frame := by
  obtain ⟨first, later, rfl, hsize⟩ := h
  refine cut_eq_ok_iff.mpr ⟨first, later, rfl, ?_⟩
  rw [hsize, List.length_cons]
  exact ⟨Nat.succ_pos _, Nat.le_refl _, List.take_of_length_le (Nat.le_refl _)⟩

/-- The frames at the front of one sequence of words after another. -/
def cutAll (sequences : List (List Word)) : List (List Word) :=
  sequences.filterMap fun words => (cut words).toOption

theorem cutAll_cons_of_ok (h : cut words = .ok frame) (later : List (List Word)) :
    cutAll (words :: later) = frame :: cutAll later :=
  List.filterMap_cons_some (by rw [h]; rfl)

theorem cutAll_cons_of_error {failure : Failure} (h : cut words = .error failure)
    (later : List (List Word)) : cutAll (words :: later) = cutAll later :=
  List.filterMap_cons_none (by rw [h]; rfl)

theorem announced_of_mem_cutAll {sequences : List (List Word)} :
    ∀ frame ∈ cutAll sequences, Announced frame := by
  intro frame hframe
  obtain ⟨words, -, hcut⟩ := List.mem_filterMap.mp hframe
  rcases hwords : cut words with failure | found <;> rw [hwords] at hcut <;> cases hcut
  exact announced_of_cut hwords

theorem cutAll_of_announced {frames : List (List Word)} (h : ∀ frame ∈ frames, Announced frame) :
    cutAll frames = frames := by
  induction frames with
  | nil => rfl
  | cons frame later ih =>
      rw [cutAll_cons_of_ok (cut_of_announced (h frame List.mem_cons_self)),
        ih fun other hother => h other (List.mem_cons_of_mem _ hother)]

/-- There is a first word for every size from one to the maximum. -/
theorem exists_head_iff {size : Nat} {opcode : Opcode} :
    (∃ first, head size opcode = .ok first) ↔ 1 ≤ size ∧ size ≤ maxWords := by
  constructor
  · rintro ⟨first, hfirst⟩
    obtain ⟨hpos, hsize, -⟩ := head_eq_ok_iff.mp hfirst
    exact ⟨hpos, hsize ▸ wordsOf_le first⟩
  · rintro ⟨hpos, hle⟩
    exact ⟨_, if_neg (by omega)⟩

end Frame

namespace Wire

/-! ## Writing -/

namespace Output

variable {output : Output}

/-- Words are refused and nothing happens, or the frame at their front is handed over. -/
theorem putFrame_eq (output : Output) (words : List Word) :
    output.putFrame words =
      match Frame.cut words with
      | .error failure => (.error failure, output)
      | .ok frame => output.putPieces (frame.map output.order.toOctets) := by
  unfold putFrame Frame.cut
  cases words with
  | nil => rfl
  | cons first later =>
      simp only
      split
      · rw [if_neg (by omega)]
      · rw [if_pos (by omega)]
        exact putWords_eq_putPieces output _

theorem putFrame_of_cut {words frame : List Word} (h : Frame.cut words = .ok frame)
    (haccepting : output.sink.disposition = .accepting) :
    ∃ next, output.putFrame words = (.ok (), next) ∧
      output.Took next (output.order.bytesOf frame) := by
  obtain ⟨next, hput, htook⟩ := putPieces_words_of_accepting haccepting frame
  exact ⟨next, by rw [putFrame_eq, h]; exact hput, htook⟩

/-- The output after words were written one sequence after another, whether they were refused or not. -/
def afterFrames (sequences : List (List Word)) (output : Output) : Output :=
  sequences.foldl (fun output words => (output.putFrame words).2) output

/-- All the frames are taken, and nothing else is. -/
theorem took_afterFrames (haccepting : output.sink.disposition = .accepting)
    (sequences : List (List Word)) :
    output.Took (output.afterFrames sequences)
      (output.order.bytesOf (Frame.cutAll sequences).flatten) := by
  induction sequences generalizing output with
  | nil => exact .refl output
  | cons words later ih =>
      rw [afterFrames, List.foldl_cons]
      rcases hcut : Frame.cut words with failure | frame
      · rw [Frame.cutAll_cons_of_error hcut, putFrame_eq, hcut]
        exact ih haccepting
      · obtain ⟨next, hput, htook⟩ := putFrame_of_cut hcut haccepting
        have hlater := ih (htook.disposition_eq.trans haccepting)
        rw [htook.order_eq] at hlater
        rw [Frame.cutAll_cons_of_ok hcut, List.flatten_cons, ByteOrder.bytesOf_append, hput]
        exact htook.trans hlater

end Output

/-! ## Reading -/

namespace FrameInput

variable {source : Source} {order : ByteOrder} {bytes : List UInt8} {frames : List (List Word)}

theorem faces_ofInput (hending : source.ending = .exhausted)
    (hdelivers : Delivers source.arrivals bytes) (order : ByteOrder) :
    (ofInput ⟨source, order, 0⟩).Faces (items order bytes) :=
  ⟨bytes, ⟨hending, hdelivers⟩, rfl⟩

theorem answer_eq_ok_none {item? : Option Item} (h : answer item? = .ok none) : item? = none := by
  rcases item? with _ | _ | _ | _
  · rfl
  all_goals cases h

theorem answer_eq_ok_some {item? : Option Item} {words : List Word}
    (h : answer item? = .ok (some words)) : item? = some (.frame words) := by
  rcases item? with _ | _ | _ | _ <;> cases h
  rfl

/-- Only frames are answered with their words. -/
theorem answer_eq_getElem?_iff {cut : List Item} :
    (∀ i ≤ frames.length, answer cut[i]? = .ok frames[i]?) ↔ cut = frames.map Item.frame := by
  constructor
  · intro h
    induction frames generalizing cut with
    | nil =>
        have hnone := answer_eq_ok_none (h 0 (Nat.le_refl _))
        exact List.eq_nil_of_length_eq_zero (Nat.le_zero.mp (List.getElem?_eq_none_iff.mp hnone))
    | cons frame later ih =>
        have hfirst := answer_eq_ok_some (h 0 (Nat.zero_le _))
        cases cut with
        | nil => cases hfirst
        | cons item others =>
            cases hfirst
            rw [List.map_cons, ih fun i hle => h (i + 1) (Nat.succ_le_succ hle)]
  · rintro rfl i -
    rw [List.getElem?_map]
    cases frames[i]? <;> rfl

theorem sum_size_map_frame (order : ByteOrder) (frames : List (List Word)) :
    ((frames.map Item.frame).map Item.size).sum = (order.bytesOf frames.flatten).length := by
  induction frames with
  | nil => rfl
  | cons frame later ih =>
      rw [List.map_cons, List.map_cons, List.sum_cons, ih, List.flatten_cons,
        ByteOrder.bytesOf_append, List.length_append, order.length_bytesOf frame]
      rfl

/-- What is read from the bytes of frames are these frames, and nothing behind them. -/
theorem next?_after_of_frames (hframes : ∀ frame ∈ frames, Frame.Announced frame)
    (hending : source.ending = .exhausted)
    (hdelivers : Delivers source.arrivals (order.bytesOf frames.flatten)) (i : Nat) :
    ∃ next, ((ofInput ⟨source, order, 0⟩).after i).next? = (.ok frames[i]?, next) ∧
      next.start = (order.bytesOf (frames.take i).flatten).length := by
  have hfaces := faces_ofInput hending hdelivers order
  rw [items_eq_map_frame_iff.mpr ⟨hframes, rfl⟩] at hfaces
  obtain ⟨next, hread, hstart⟩ := next?_after_of_faces hfaces i
  refine ⟨next, ?_, ?_⟩
  · rw [hread, List.getElem?_map]
    cases frames[i]? <;> rfl
  · rw [hstart, ← List.map_take, sum_size_map_frame order]
    exact Nat.zero_add _

/-- Bytes from which frames are read up to the end are the bytes of these frames. -/
theorem bytes_eq_of_next?_after (hending : source.ending = .exhausted)
    (hdelivers : Delivers source.arrivals bytes)
    (hread : ∀ i ≤ frames.length,
      ((ofInput ⟨source, order, 0⟩).after i).next?.1 = .ok frames[i]?) :
    (∀ frame ∈ frames, Frame.Announced frame) ∧ bytes = order.bytesOf frames.flatten := by
  rw [← items_eq_map_frame_iff, ← answer_eq_getElem?_iff]
  intro i hle
  obtain ⟨next, hnext, -⟩ := next?_after_of_faces (faces_ofInput hending hdelivers order) i
  rw [← hread i hle, hnext]

end FrameInput

/-! ## Both directions -/

/-- Words are written exactly if their first one announces at least one word and no more than there are, and
then as many of them as it announces. Other words are refused for their size, and nothing happens. What comes
of writing one sequence of words after another is read back as the frames of those that were not refused,
each from its own position, and nothing is left behind them. Bytes from which frames are read up to the end
come of writing these frames. And a first word can be made for the sizes that fit, and holds the size and
the opcode. -/
theorem framing_bijective {output : Output} (haccepting : output.sink.disposition = .accepting) :
    (∀ words,
      ((output.putFrame words).1 = .ok () ↔ ∃ first later, words = first :: later ∧
        1 ≤ Frame.wordsOf first ∧ Frame.wordsOf first ≤ words.length) ∧
      (∀ first later, words = first :: later → (output.putFrame words).1 = .ok () →
        output.Took (output.putFrame words).2
          (output.order.bytesOf (words.take (Frame.wordsOf first)))) ∧
      ((output.putFrame words).1 ≠ .ok () → output.putFrame words =
        (.error (.badSize ((words.head?.map Frame.wordsOf).getD 0)), output))) ∧
    (∀ sequences, ∃ bytes, output.Took (output.afterFrames sequences) bytes ∧
      ∀ source : Source, source.ending = .exhausted → Delivers source.arrivals bytes →
        ∀ i, ∃ next, ((FrameInput.ofInput ⟨source, output.order, 0⟩).after i).next? =
            (.ok (Frame.cutAll sequences)[i]?, next) ∧
          next.start =
            (output.order.bytesOf ((Frame.cutAll sequences).take i).flatten).length) ∧
    (∀ (source : Source) (bytes : List UInt8) (frames : List (List Word)),
      source.ending = .exhausted → Delivers source.arrivals bytes →
      (∀ i ≤ frames.length, ((FrameInput.ofInput ⟨source, output.order, 0⟩).after i).next?.1 =
        .ok frames[i]?) →
      output.Took (output.afterFrames frames) bytes) ∧
    ∀ (size : Nat) (opcode : Opcode),
      ((∃ first, Frame.head size opcode = .ok first) ↔ 1 ≤ size ∧ size ≤ 65535) ∧
      ∀ first, Frame.head size opcode = .ok first →
        Frame.wordsOf first = size ∧ Frame.opcodeOf first = opcode := by
  refine ⟨fun words => ?_, fun sequences => ?_, ?_, fun size opcode => ?_⟩
  · cases hcut : Frame.cut words with
    | error failure =>
        have hput : output.putFrame words = (.error failure, output) := by
          rw [Output.putFrame_eq, hcut]
        rw [hput]
        refine ⟨⟨nofun, ?_⟩, nofun, fun _ => ?_⟩
        · rintro ⟨first, later, hwords, hpos, hle⟩
          rw [Frame.cut_eq_ok_iff.mpr ⟨first, later, hwords, hpos, hle, rfl⟩] at hcut
          cases hcut
        · rw [Frame.failure_of_cut hcut]
    | ok frame =>
        obtain ⟨next, hput, htook⟩ := Output.putFrame_of_cut hcut haccepting
        obtain ⟨first, later, hwords, hpos, hle, rfl⟩ := Frame.cut_eq_ok_iff.mp hcut
        rw [hput]
        refine ⟨⟨fun _ => ⟨first, later, hwords, hpos, hle⟩, fun _ => rfl⟩, ?_,
          fun h => absurd rfl h⟩
        intro other others hother _
        obtain ⟨rfl, -⟩ := List.cons.inj (hwords.symm.trans hother)
        exact htook
  · refine ⟨_, Output.took_afterFrames haccepting sequences, ?_⟩
    intro source hending hdelivers i
    exact FrameInput.next?_after_of_frames Frame.announced_of_mem_cutAll hending hdelivers i
  · intro source bytes frames hending hdelivers hread
    obtain ⟨hframes, rfl⟩ := FrameInput.bytes_eq_of_next?_after hending hdelivers hread
    have htook := Output.took_afterFrames haccepting frames
    rwa [Frame.cutAll_of_announced hframes] at htook
  · exact ⟨Frame.exists_head_iff, fun first hfirst => (Frame.head_eq_ok_iff.mp hfirst).2⟩

/-- An output in the order that does not come first, to which nothing has been written. -/
def emptyOutput : Output :=
  ⟨.unbounded, .big, 0⟩

/-- A frame with a word behind it, no words, a word that announces none, a frame that is too short, and one
more frame. -/
def mixedSequences : List (List Word) :=
  [[0x00020011, 1, 7], [], [0x00000011], [0x00030005, 9], [0x000100FD]]

/-- Of the five sequences two frames are written, and the second is read from behind the first. -/
theorem framing_mixedSequences :
    (emptyOutput.putFrame [0x00030005, 9]).1 = .error (.badSize 3) ∧
      (emptyOutput.afterFrames mixedSequences).sink.accepted.toList =
        [0, 2, 0, 0x11, 0, 0, 0, 1, 0, 1, 0, 0xFD] ∧
      (∃ next, ((FrameInput.ofInput
          ⟨.ofBytes [0, 2, 0, 0x11, 0, 0, 0, 1, 0, 1, 0, 0xFD], .big, 0⟩).after 1).next? =
          (.ok (some [0x000100FD]), next) ∧ next.start = 8) ∧
      Frame.head 65536 17 ≠ .ok 17 := by
  obtain ⟨hwrite, hback, -, hhead⟩ :=
    framing_bijective (show emptyOutput.sink.disposition = .accepting from rfl)
  obtain ⟨bytes, htook, hread⟩ := hback mixedSequences
  have hbytes : [0, 2, 0, 0x11, 0, 0, 0, 1, 0, 1, 0, 0xFD] = bytes :=
    (show (emptyOutput.afterFrames mixedSequences).sink.accepted.toList = _ by decide).symm.trans
      htook.accepted_eq
  refine ⟨?_, ?_, ?_, ?_⟩
  · rw [(hwrite [0x00030005, 9]).2.2 (by decide)]
    rfl
  · rw [hbytes]
    exact htook.accepted_eq
  · rw [hbytes]
    exact hread _ rfl (delivers_ofBytes bytes) 1
  · intro hok
    exact absurd ((hhead 65536 17).1.mp ⟨_, hok⟩).2 (by decide)

end Wire
end ShaderBinary
