import ShaderBinary.Proofs.Module.Encoding
import ShaderBinary.Proofs.Module.Truncation
import ShaderBinary.Proofs.Wire.Mirroring

/-!
# Modules in the opposite byte order

The byte order of a module has no meaning of its own. Turn every word of its bytes around
(`Wire.reverseWords`): the magic number then stands for the opposite order, and everything behind it is
read as before. Whatever a header is refused for, it is then refused for as well (`Header.Fails.mirrored`),
and what is saved in the opposite order are the same frames (`Module.toBytes_mirrored`).

`Module.load_reverseWords` says it of loading and of saving, whatever the codecs do. A failure stays the
same too, but for the magic number of a header, which is found with its bytes turned around. A codec could
also answer with a bad magic number that it made up itself. That one is not turned around.
-/

namespace ShaderBinary

open Wire

/-- The failure in the opposite byte order. -/
def Failure.mirrored : Failure → Failure
  | .badMagic value => .badMagic value.reverseOctets
  | failure => failure

theorem Failure.mirrored_of_ne {failure : Failure} (h : ∀ value, failure ≠ .badMagic value) :
    failure.mirrored = failure := by
  cases failure with
  | badMagic value => exact absurd rfl (h value)
  | _ => rfl

/-! ## Headers -/

namespace Header

variable {header : Header} {order : ByteOrder} {magic : Word} {bytes : List UInt8} {input : Input}

/-- The header of the opposite byte order. -/
def mirrored (header : Header) : Header :=
  { header with magic := header.magic.reverseOctets }

@[simp] theorem mirrored_mirrored (header : Header) : header.mirrored.mirrored = header := by
  rw [mirrored, mirrored, Word.reverseOctets_reverseOctets]

theorem magicOf_opposite (order : ByteOrder) :
    magicOf order.opposite = (magicOf order).reverseOctets := by
  cases order with
  | little => rfl
  | big => exact (Word.reverseOctets_reverseOctets _).symm

/-- A magic number that is turned around stands for the opposite byte order. -/
theorem orderOf_reverseOctets :
    orderOf magic.reverseOctets = .ok order.opposite ↔ orderOf magic = .ok order := by
  rw [orderOf_eq_ok_iff, orderOf_eq_ok_iff, magicOf_opposite]
  exact Function.Injective.eq_iff (Function.LeftInverse.injective Word.reverseOctets_reverseOctets)

theorem orderOf_reverseOctets_of_error (h : orderOf magic = .error (.badMagic magic)) :
    orderOf magic.reverseOctets = .error (.badMagic magic.reverseOctets) := by
  cases hreverse : orderOf magic.reverseOctets with
  | error failure => rw [orderOf_eq_error hreverse]
  | ok order =>
      rw [← order.opposite_opposite, orderOf_reverseOctets, h] at hreverse
      cases hreverse

theorem Supported.mirrored (h : header.Supported order) : header.mirrored.Supported order.opposite :=
  ⟨orderOf_reverseOctets.mpr h.order_eq, h.version_eq⟩

theorem reverseWords_image_append (order : ByteOrder) (header : Header) (left : List UInt8) :
    reverseWords (header.image order ++ left) =
      header.mirrored.image order.opposite ++ reverseWords left := by
  rw [image, image, List.append_assoc, reverseWords_append (ByteOrder.length_toOctets _ _),
    reverseWords_bytesOf_append, mirrored, ByteOrder.toOctets_reverseOctets, List.append_assoc]

theorem Fails.mirrored {failure : Failure} (h : Fails bytes failure) :
    Fails (reverseWords bytes) failure.mirrored := by
  cases h with
  | partMagic h => exact .partMagic (by rwa [length_reverseWords])
  | @foreignMagic magic _ left h =>
      -- No order is known here: the four bytes of the magic number are turned around as they are.
      obtain rfl := orderOf_eq_error h
      rw [reverseWords_append (ByteOrder.length_toOctets _ _), ← ByteOrder.toOctets_reverseOctets]
      exact .foreignMagic _ (orderOf_reverseOctets_of_error h)
  | partWords horder h =>
      rw [reverseWords_append (ByteOrder.length_toOctets _ _), ← ByteOrder.toOctets_reverseOctets]
      exact .partWords (orderOf_reverseOctets.mpr horder) (by rwa [length_reverseWords])
  | @foreignVersion header order left horder h =>
      have hmirrored : header.mirrored.order = .ok order.opposite := orderOf_reverseOctets.mpr horder
      rw [reverseWords_image_append]
      exact .foreignVersion _ hmirrored h

end Header

/-! ## Modules -/

/-- In the opposite byte order the same instructions are decoded. -/
theorem Dialect.decodeItems_mirrored (dialect : Dialect) (items : List Item) :
    dialect.decodeItems (items.map Item.mirrored) = dialect.decodeItems items := by
  induction items with
  | nil => rfl
  | cons item later ih =>
      rw [List.map_cons, decodeItems, decodeItems, ih, decodeItem, decodeItem, Item.words_mirrored]

/-- Items that are not decoded fail in a codec, or for a size of zero, or because they end too early. -/
theorem Dialect.failure_of_decodeItems {dialect : Dialect} {items : List Item} {failure : Failure}
    (h : dialect.decodeItems items = .error failure) :
    (∃ frame, dialect.decode frame = .error failure) ∨
      failure = .badSize 0 ∨ failure = .truncated := by
  induction items with
  | nil => cases h
  | cons item later ih =>
      rcases hitem : dialect.decodeItem item with found | ⟨instruction, words⟩
      · rw [decodeItems_cons_of_error hitem] at h
        cases h
        cases item with
        | empty first => cases hitem; exact .inr (.inl rfl)
        | short bytes => cases hitem; exact .inr (.inr rfl)
        | frame words =>
            rcases hdecode : dialect.decode words with found | instruction <;>
              simp only [decodeItem, Item.words, hdecode, Except.map] at hitem <;> cases hitem
            exact .inl ⟨words, hdecode⟩
      · rw [decodeItems_cons_of_ok hitem] at h
        rcases hlater : dialect.decodeItems later with found | code <;> rw [hlater] at h <;> cases h
        exact ih hlater

/-- Signatures know nothing of magic numbers. -/
theorem Dialect.OfSignatureCodecs.decode_ne_badMagic {dialect : Dialect} (h : dialect.OfSignatureCodecs)
    (frame : List Word) (value : Word) : dialect.decode frame ≠ .error (.badMagic value) := by
  intro hdecode
  cases h.ofWords_of_decode hdecode

namespace Module

variable {dialect : Dialect} {module : Module} {bytes : List UInt8}

/-- The module in the opposite byte order. -/
def mirrored (module : Module) : Module :=
  { module with header := module.header.mirrored }

@[simp] theorem mirrored_mirrored (module : Module) : module.mirrored.mirrored = module := by
  rw [mirrored, mirrored, Header.mirrored_mirrored]

/-- Either the header is refused, in both byte orders, or what follows is decoded, with the same result in
both. -/
theorem load_reverseWords_cases (dialect : Dialect) (bytes : List UInt8) :
    (∃ failure, (Header.read (.ofSource (.ofBytes bytes))).1 = .error failure ∧
      load dialect (.ofBytes bytes) = .error failure ∧
      load dialect (.ofBytes (reverseWords bytes)) = .error failure.mirrored) ∨
    ∃ header items, (Header.read (.ofSource (.ofBytes bytes))).1 = .ok header ∧
      load dialect (.ofBytes bytes) = (dialect.decodeItems items).map (Module.mk header) ∧
      load dialect (.ofBytes (reverseWords bytes)) =
        (dialect.decodeItems items).map (Module.mk header.mirrored) := by
  have hholds (bytes : List UInt8) : Input.Holds (.ofSource (.ofBytes bytes)) bytes :=
    ⟨rfl, delivers_ofBytes bytes⟩
  rcases Header.fails_or_eq_image bytes with ⟨failure, hfails⟩ | ⟨header, order, left, h, rfl⟩
  · obtain ⟨next, hread⟩ := Header.read_of_fails (hholds bytes) hfails
    obtain ⟨next', hread'⟩ := Header.read_of_fails (hholds _) hfails.mirrored
    exact .inl ⟨failure, congrArg Prod.fst hread, load_of_read_error hread, load_of_read_error hread'⟩
  · obtain ⟨next, hread, -⟩ := Header.read_of_supported h (hholds _)
    refine .inr ⟨header, items order left, congrArg Prod.fst hread,
      load_image_append h rfl (delivers_ofBytes _), ?_⟩
    rw [Header.reverseWords_image_append, load_image_append h.mirrored rfl (delivers_ofBytes _),
      items_reverseWords, Dialect.decodeItems_mirrored]

theorem load_mirrored (h : load dialect (.ofBytes bytes) = .ok module) :
    load dialect (.ofBytes (reverseWords bytes)) = .ok module.mirrored := by
  rcases load_reverseWords_cases dialect bytes with
    ⟨failure, -, hload, -⟩ | ⟨header, items, -, hload, hreverse⟩
  · rw [hload] at h
    cases h
  · rw [hload] at h
    rw [hreverse]
    rcases hitems : dialect.decodeItems items with failure | code <;> rw [hitems] at h <;> cases h
    rfl

/-- What fails fails in both byte orders: for the header, or for what a codec or the framing finds behind it. -/
theorem load_reverseWords_of_error {failure : Failure}
    (h : load dialect (.ofBytes bytes) = .error failure) :
    ((Header.read (.ofSource (.ofBytes bytes))).1 = .error failure ∧
      load dialect (.ofBytes (reverseWords bytes)) = .error failure.mirrored) ∨
    (∃ header, (Header.read (.ofSource (.ofBytes bytes))).1 = .ok header) ∧
      load dialect (.ofBytes (reverseWords bytes)) = .error failure ∧
      ((∃ frame, dialect.decode frame = .error failure) ∨
        failure = .badSize 0 ∨ failure = .truncated) := by
  rcases load_reverseWords_cases dialect bytes with
    ⟨found, hread, hload, hreverse⟩ | ⟨header, items, hread, hload, hreverse⟩
  · obtain rfl := Except.error.inj (hload.symm.trans h)
    exact .inl ⟨hread, hreverse⟩
  · rw [hload] at h
    rcases hitems : dialect.decodeItems items with found | code <;> rw [hitems] at h <;> cases h
    rw [hitems] at hreverse
    exact .inr ⟨⟨header, hread⟩, hreverse, Dialect.failure_of_decodeItems hitems⟩

/-- The frames do not depend on the byte order. -/
theorem toBytes_mirrored (h : module.toBytes dialect = .ok bytes) :
    module.mirrored.toBytes dialect = .ok (reverseWords bytes) := by
  rw [toBytes_eq] at h ⊢
  cases horder : module.header.writtenOrder with
  | error failure =>
      rw [horder] at h
      cases h
  | ok order =>
      have hmirrored : module.mirrored.header.writtenOrder = .ok order.opposite :=
        Header.writtenOrder_eq_ok_iff.mpr (Header.writtenOrder_eq_ok_iff.mp horder).mirrored
      have hcode : module.mirrored.code = module.code := rfl
      simp only [horder] at h
      simp only [hmirrored, hcode]
      -- The frames are laid out before the byte order is looked at.
      rcases hframes : Saving.layOutAll dialect module.code #[] with failure | frames <;>
        rw [hframes] at h <;> cases h
      rw [Header.reverseWords_image_append, reverseWords_bytesOf]
      rfl

/-- Byte order has no meaning. Bytes are loaded as a module exactly if, with every word turned around, they
are loaded as the same module with its magic number turned around. What their header is refused for, it is
refused for there too, with a magic number turned around. Behind a header that is accepted, they fail in the
same way, even if it is with a magic number that a codec finds wrong. Unless a codec does that, every failure
is thus met again with its magic number turned around. And a module is saved as some bytes exactly if, with
its magic number turned around, it is saved as these bytes with every word turned around. -/
theorem load_reverseWords (dialect : Dialect) :
    (∀ bytes (module : Module), load dialect (.ofBytes bytes) = .ok module ↔
        load dialect (.ofBytes (reverseWords bytes)) = .ok module.mirrored) ∧
      (∀ bytes failure, (Header.read (.ofSource (.ofBytes bytes))).1 = .error failure →
        load dialect (.ofBytes bytes) = .error failure ∧
          load dialect (.ofBytes (reverseWords bytes)) = .error failure.mirrored) ∧
      (∀ bytes header failure, (Header.read (.ofSource (.ofBytes bytes))).1 = .ok header →
        load dialect (.ofBytes bytes) = .error failure →
        load dialect (.ofBytes (reverseWords bytes)) = .error failure) ∧
      ((∀ frame value, dialect.decode frame ≠ .error (.badMagic value)) →
        ∀ bytes failure, load dialect (.ofBytes bytes) = .error failure →
          load dialect (.ofBytes (reverseWords bytes)) = .error failure.mirrored) ∧
      ∀ (module : Module) bytes, module.toBytes dialect = .ok bytes ↔
        module.mirrored.toBytes dialect = .ok (reverseWords bytes) := by
  refine ⟨fun bytes module => ⟨load_mirrored, fun h => ?_⟩, fun bytes failure hrefused => ?_,
    fun bytes header failure haccepted h => ?_, fun hdecode bytes failure h => ?_,
    fun module bytes => ⟨toBytes_mirrored, fun h => ?_⟩⟩
  · have hback := load_mirrored h
    rwa [reverseWords_reverseWords, mirrored_mirrored] at hback
  · rcases load_reverseWords_cases dialect bytes with
      ⟨found, hread, hload, hreverse⟩ | ⟨header, items, hread, -⟩
    · obtain rfl := Except.error.inj (hread.symm.trans hrefused)
      exact ⟨hload, hreverse⟩
    · cases hread.symm.trans hrefused
  · rcases load_reverseWords_of_error h with ⟨hread, -⟩ | ⟨-, hsame, -⟩
    · cases hread.symm.trans haccepted
    · exact hsame
  · rcases load_reverseWords_of_error h with ⟨-, hmirrored⟩ | ⟨-, hsame, hcause⟩
    · exact hmirrored
    · have hne : ∀ value, failure ≠ .badMagic value := by
        rintro value rfl
        rcases hcause with ⟨frame, hframe⟩ | hsize | hshort
        · exact hdecode frame value hframe
        · cases hsize
        · cases hshort
      rw [Failure.mirrored_of_ne hne]
      exact hsame
  · have hback := toBytes_mirrored h
    rwa [reverseWords_reverseWords, mirrored_mirrored] at hback

/-- A dialect with one codec, which finds a magic number wrong in everything it is handed. -/
def distrusting : Dialect :=
  .bind .empty 17 ⟨fun _ => .error (.badMagic 1), fun _ buffer => (.error (.badMagic 1), buffer)⟩

/-- A module with a capability and a text in big-endian order, the first four bytes of a text, and a magic
number that is not that of the header. -/
theorem load_reverseWords_ofCapability :
    load Standard.dialect (.ofBytes (reverseWords capabilityBytes)) = .ok ofCapability.mirrored ∧
      ofCapability.mirrored.header = .ofOrder .big ∧
      ofCapability.mirrored.toBytes Standard.dialect = .ok (reverseWords capabilityBytes) ∧
      load Standard.dialect (.ofBytes [0x61, 0x62, 0x63, 0x64]) = .error (.badMagic 0x61626364) ∧
      load Standard.dialect (.ofBytes [0x64, 0x63, 0x62, 0x61]) = .error (.badMagic 0x64636261) ∧
      load distrusting (.ofBytes (reverseWords capabilityBytes)) = .error (.badMagic 1) := by
  obtain ⟨hload, -, -, hfailure, hsave⟩ := load_reverseWords Standard.dialect
  obtain ⟨-, -, hcodec, -, -⟩ := load_reverseWords distrusting
  have hforeign : load Standard.dialect (.ofBytes [0x61, 0x62, 0x63, 0x64]) =
      .error (.badMagic 0x61626364) := by
    decide +kernel
  have hsignatures := Standard.dialect_ofSignatures.ofSignatureCodecs
  refine ⟨(hload _ _).mp (by decide +kernel), by decide +kernel, (hsave _ _).mp (by decide +kernel),
    hforeign, ?_, ?_⟩
  · exact hfailure hsignatures.decode_ne_badMagic _ _ hforeign
  · exact hcodec capabilityBytes (.ofOrder .little) _ (by decide +kernel) (by decide +kernel)

/-- For all dialects alike one cannot say that a wrong magic number is found turned around. A codec that finds
one is handed the same words in both orders, and answers with the same one. -/
theorem not_load_reverseWords : ¬∀ dialect : Dialect,
    (∀ bytes (module : Module), load dialect (.ofBytes bytes) = .ok module ↔
        load dialect (.ofBytes (reverseWords bytes)) = .ok module.mirrored) ∧
      (∀ bytes failure, load dialect (.ofBytes bytes) = .error failure →
        load dialect (.ofBytes (reverseWords bytes)) = .error failure.mirrored) ∧
      ∀ (module : Module) bytes, module.toBytes dialect = .ok bytes →
        module.mirrored.toBytes dialect = .ok (reverseWords bytes) := by
  intro h
  have hload : load distrusting (.ofBytes capabilityBytes) = .error (.badMagic 1) := by
    decide +kernel
  have hreverse : load distrusting (.ofBytes (reverseWords capabilityBytes)) =
      .error (.badMagic 1) := by
    decide +kernel
  have hmirrored := (h distrusting).2.1 capabilityBytes _ hload
  exact absurd (hmirrored.symm.trans hreverse) (by decide)

end Module
end ShaderBinary
