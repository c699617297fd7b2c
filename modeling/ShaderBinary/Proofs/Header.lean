import ShaderBinary.Header
import ShaderBinary.Proofs.Wire.Input

/-!
# Reading headers

`Header.image` is what a header looks like on a stream: the magic number with its first byte as the most
significant one, whatever the byte order, and then words in the order that it stands for.

`Header.Reads` says what reading does to the stream, whatever it finds: how many bytes have been read, and in
which byte order the stream is left.

* Of fewer than four bytes all are read, and so are the bytes behind a magic number if a header is not
  complete (`Header.reads_partMagic`, `Header.reads_partWords`).
* Nothing is read behind a magic number that stands for no order (`Header.reads_foreignMagic`).
* A header is read as a whole before its version is looked at (`Header.reads_image`).

`Header.Fails` lists what can be wrong with bytes that start with no supported header, and
`Header.fails_or_eq_image` says that nothing else can be.
-/

namespace ShaderBinary

open Wire

namespace Header

/-- The bytes of a header, whose magic number stands for the given order. -/
def image (order : ByteOrder) (header : Header) : List UInt8 :=
  ByteOrder.big.toOctets header.magic ++
    order.bytesOf [header.version, header.generator, header.bound, header.reserved]

@[simp] theorem length_image (order : ByteOrder) (header : Header) :
    (header.image order).length = 20 := by
  simp [image]

/-- A header that is supported, and the byte order its magic number stands for. -/
structure Supported (header : Header) (order : ByteOrder) : Prop where
  order_eq : header.order = .ok order
  version_eq : header.version = supportedVersion

variable {header : Header} {order : ByteOrder} {magic : Word} {input next : Input}
  {bytes left rest : List UInt8} {failure : Failure}

/-! ## Magic numbers -/

/-- A magic number is refused for itself. -/
theorem orderOf_eq_error (h : orderOf magic = .error failure) :
    failure = .badMagic magic := by
  unfold orderOf at h
  split at h
  · cases h
  · split at h
    · cases h
    · exact (Except.error.inj h).symm

theorem orderOf_magicOf (order : ByteOrder) : orderOf (magicOf order) = .ok order := by
  cases order <;> decide +kernel

theorem orderOf_eq_ok_iff : orderOf magic = .ok order ↔ magic = magicOf order := by
  constructor
  · intro h
    unfold orderOf at h
    split at h
    · next hlittle => cases h; exact hlittle
    · split at h
      · next hbig => cases h; exact hbig
      · cases h
  · rintro rfl
    exact orderOf_magicOf order

theorem supported_iff :
    header.Supported order ↔ header.magic = magicOf order ∧ header.version = supportedVersion :=
  ⟨fun h => ⟨orderOf_eq_ok_iff.mp h.order_eq, h.version_eq⟩,
    fun h => ⟨orderOf_eq_ok_iff.mpr h.1, h.2⟩⟩

/-- Four bytes are a word with its first byte as the most significant one. -/
theorem exists_toOctets_append (h : 4 ≤ bytes.length) :
    ∃ magic left, bytes = ByteOrder.big.toOctets magic ++ left := by
  obtain ⟨words, left, hcount, rfl⟩ := ByteOrder.big.exists_bytesOf_append
    (show 4 * 1 ≤ bytes.length from h)
  obtain ⟨magic, rfl⟩ := List.length_eq_one_iff.mp hcount
  refine ⟨magic, left, ?_⟩
  rw [ByteOrder.bytesOf_cons, ByteOrder.bytesOf_nil, List.append_nil]

/-- Four words behind a magic number make it a header. -/
theorem exists_image (magic : Word) (order : ByteOrder) (h : 16 ≤ bytes.length) :
    ∃ (header : Header) (left : List UInt8), header.magic = magic ∧
      ByteOrder.big.toOctets magic ++ bytes = header.image order ++ left := by
  obtain ⟨words, left, hcount, rfl⟩ := order.exists_bytesOf_append (show 4 * 4 ≤ bytes.length from h)
  obtain ⟨version, generator, bound, reserved, rfl⟩ := List.length_eq_four.mp hcount
  exact ⟨⟨magic, version, generator, bound, reserved⟩, left, rfl, (List.append_assoc _ _ _).symm⟩

/-! ## Outcomes -/

/-- A header was looked for with this result. So many of the bytes have been read, and the input is left in
this order. -/
structure Reads (input : Input) (bytes : List UInt8) (result : Except Failure Header) (count : Nat)
    (order : ByteOrder) : Prop where
  result_eq : (Header.read input).1 = result
  holds : (Header.read input).2.Holds (bytes.drop count)
  offset_eq : (Header.read input).2.offset = input.offset + count
  order_eq : (Header.read input).2.order = order

theorem Reads.of_read {result : Except Failure Header} {count : Nat}
    (hread : Header.read input = (result, next)) (hholds : next.Holds (bytes.drop count))
    (hoffset : next.offset = input.offset + count) (horder : next.order = order) :
    Reads input bytes result count order := by
  apply Reads.mk
  · rw [hread]
  · rw [hread]
    exact hholds
  · rw [hread]
    exact hoffset
  · rw [hread]
    exact horder

theorem Reads.exists_next {result : Except Failure Header} {count : Nat}
    (h : Reads input bytes result count order) : ∃ next, Header.read input = (result, next) :=
  ⟨_, Prod.ext h.result_eq rfl⟩

theorem reads_partMagic (hholds : input.Holds bytes) (h : bytes.length < 4) :
    Reads input bytes (.error .truncated) bytes.length input.order := by
  obtain ⟨next, hbytes, hadvances⟩ := Input.bytes?_of_holds hholds 4
  rw [takeBytes?, if_neg (Nat.not_le_of_lt h)] at hbytes hadvances
  -- Whether there are no bytes at all makes no difference here.
  have hread : Header.read input = (.error .truncated, next) := by
    rw [Header.read, hbytes]
    cases bytes <;> rfl
  have hleft : input.Advances next bytes [] := by
    cases bytes <;> exact hadvances
  refine .of_read hread ?_ hleft.offset_add hleft.order_eq
  rw [List.drop_length]
  exact hleft.holds

theorem reads_foreignMagic (h : orderOf magic = .error failure)
    (hholds : input.Holds (ByteOrder.big.toOctets magic ++ left)) :
    Reads input (ByteOrder.big.toOctets magic ++ left) (.error failure) 4 input.order := by
  have hlength := ByteOrder.length_toOctets .big magic
  obtain ⟨next, hbytes, hadvances⟩ := Input.bytes?_append hlength hholds
  have hread : Header.read input = (.error failure, next) := by
    rw [Header.read, hbytes]
    simp only [ByteOrder.toWord_toOctets, h]
  have hoffset := hadvances.offset_add
  rw [List.length_append, hlength] at hoffset
  refine .of_read hread ?_ (by omega) hadvances.order_eq
  rw [List.drop_left' hlength]
  exact hadvances.holds

theorem reads_partWords (horder : orderOf magic = .ok order) (h : rest.length < 16)
    (hholds : input.Holds (ByteOrder.big.toOctets magic ++ rest)) :
    Reads input (ByteOrder.big.toOctets magic ++ rest) (.error .truncated)
      (ByteOrder.big.toOctets magic ++ rest).length order := by
  obtain ⟨next, hbytes, hadvances⟩ :=
    Input.bytes?_append (ByteOrder.length_toOctets .big magic) hholds
  -- The order has changed by the time that the bytes run out.
  obtain ⟨last, hwords, hlast⟩ :=
    Input.words_of_lt (show rest.length < 4 * 4 from h) (hadvances.holds.withOrder order)
  have hread : Header.read input = (.error .truncated, last) := by
    rw [Header.read, hbytes]
    simp only [ByteOrder.toWord_toOctets, horder, hwords]
  refine .of_read hread ?_ (hlast.offset_add.trans hadvances.offset_add) hlast.order_eq
  rw [List.drop_length]
  exact hlast.holds

/-- Of a header whose magic number stands for an order all five words are read, and then its version is
looked at. -/
theorem read_of_image (horder : header.order = .ok order)
    (hholds : input.Holds (header.image order ++ left)) :
    ∃ next, Header.read input = (if header.version = supportedVersion then .ok header
        else .error (.unsupportedVersion header.version), next) ∧ next.Holds left ∧
      next.order = order ∧ next.offset = input.offset + 20 := by
  obtain ⟨magic, version, generator, bound, reserved⟩ := header
  simp only [Header.order] at horder
  rw [image, List.append_assoc] at hholds
  obtain ⟨afterMagic, hmagic, hadvances⟩ :=
    Input.bytes?_append (ByteOrder.length_toOctets .big magic) hholds
  have hrest := hadvances.holds.withOrder order
  obtain ⟨next, hwords, hnext⟩ := Input.words_append hrest
  refine ⟨next, ?_, hnext.holds, hnext.order_eq, ?_⟩
  · simp only [List.length_cons, List.length_nil] at hwords
    simp only [Header.read, hmagic, ByteOrder.toWord_toOctets, horder, hwords]
    split <;> rfl
  · have hoffset := hadvances.offset_add
    have hoffsetLast := hnext.offset_add
    simp only [List.length_append, ByteOrder.length_toOctets, ByteOrder.length_bytesOf,
      List.length_cons, List.length_nil] at hoffset hoffsetLast
    omega

theorem read_of_supported (h : header.Supported order)
    (hholds : input.Holds (header.image order ++ left)) :
    ∃ next, Header.read input = (.ok header, next) ∧ next.Holds left ∧ next.order = order ∧
      next.offset = input.offset + 20 := by
  obtain ⟨next, hread, hnext⟩ := read_of_image h.order_eq hholds
  rw [if_pos h.version_eq] at hread
  exact ⟨next, hread, hnext⟩

theorem reads_image (horder : header.order = .ok order)
    (hholds : input.Holds (header.image order ++ left)) :
    Reads input (header.image order ++ left) (if header.version = supportedVersion then .ok header
      else .error (.unsupportedVersion header.version)) 20 order := by
  obtain ⟨next, hread, hleft, hnext, hoffset⟩ := read_of_image horder hholds
  refine .of_read hread ?_ hoffset hnext
  rw [List.drop_left' (length_image order header)]
  exact hleft

theorem reads_of_supported (h : header.Supported order)
    (hholds : input.Holds (header.image order ++ left)) :
    Reads input (header.image order ++ left) (.ok header) 20 order := by
  have hreads := reads_image h.order_eq hholds
  rwa [if_pos h.version_eq] at hreads

theorem read_of_take (h : header.Supported order) {k : Nat} (hlt : k < 20)
    (hholds : input.Holds ((header.image order).take k)) :
    ∃ next, Header.read input = (.error .truncated, next) := by
  have hlength : ((header.image order).take k).length = k := by
    rw [List.length_take, length_image]
    omega
  by_cases hfour : k < 4
  · exact (reads_partMagic hholds (by omega)).exists_next
  · have hmagic := ByteOrder.length_toOctets .big header.magic
    rw [image, List.take_append, List.take_of_length_le (by omega)] at hholds hlength
    rw [List.length_append] at hlength
    exact (reads_partWords h.order_eq (by omega) hholds).exists_next

/-! ## Failures -/

/-- The bytes do not start with a supported header, and this is what is wrong with them. -/
inductive Fails : List UInt8 → Failure → Prop
  | partMagic {bytes : List UInt8} (h : bytes.length < 4) : Fails bytes .truncated
  | foreignMagic {magic : Word} {failure : Failure} (left : List UInt8)
      (h : orderOf magic = .error failure) :
      Fails (ByteOrder.big.toOctets magic ++ left) failure
  | partWords {magic : Word} {order : ByteOrder} {rest : List UInt8} (horder : orderOf magic = .ok order)
      (h : rest.length < 16) : Fails (ByteOrder.big.toOctets magic ++ rest) .truncated
  | foreignVersion {header : Header} {order : ByteOrder} (left : List UInt8)
      (horder : header.order = .ok order) (h : header.version ≠ supportedVersion) :
      Fails (header.image order ++ left) (.unsupportedVersion header.version)

/-- Bytes that start with no supported header fail for one of the reasons there are. -/
theorem fails_or_eq_image (bytes : List UInt8) : (∃ failure, Fails bytes failure) ∨
    ∃ header order left, Supported header order ∧ bytes = header.image order ++ left := by
  by_cases hfour : bytes.length < 4
  · exact .inl ⟨_, .partMagic hfour⟩
  · obtain ⟨magic, rest, rfl⟩ := exists_toOctets_append (Nat.le_of_not_lt hfour)
    cases horder : orderOf magic with
    | error failure => exact .inl ⟨failure, .foreignMagic rest horder⟩
    | ok order =>
        by_cases hwords : rest.length < 16
        · exact .inl ⟨_, .partWords horder hwords⟩
        · -- All five words are there, and only the version can still be refused.
          obtain ⟨header, left, rfl, himage⟩ := exists_image magic order (Nat.le_of_not_lt hwords)
          rw [himage]
          by_cases hversion : header.version = supportedVersion
          · exact .inr ⟨header, order, left, ⟨horder, hversion⟩, rfl⟩
          · exact .inl ⟨_, .foreignVersion left horder hversion⟩

theorem read_of_fails (hholds : input.Holds bytes) (h : Fails bytes failure) :
    ∃ next, Header.read input = (.error failure, next) := by
  cases h with
  | partMagic h => exact (reads_partMagic hholds h).exists_next
  | foreignMagic left h => exact (reads_foreignMagic h hholds).exists_next
  | partWords horder h => exact (reads_partWords horder h hholds).exists_next
  | foreignVersion left horder h =>
      have hreads := reads_image horder hholds
      rw [if_neg h] at hreads
      exact hreads.exists_next

theorem image_of_read (hholds : input.Holds bytes)
    (hread : Header.read input = (.ok header, next)) :
    ∃ order left, header.Supported order ∧ bytes = header.image order ++ left ∧
      next.Holds left ∧ next.order = order := by
  rcases fails_or_eq_image bytes with ⟨failure, hfails⟩ | ⟨found, order, left, hsupported, rfl⟩
  · obtain ⟨last, hother⟩ := read_of_fails hholds hfails
    rw [hread] at hother
    cases hother
  · obtain ⟨last, hother, hleft, horder, -⟩ := read_of_supported hsupported hholds
    rw [hread] at hother
    cases hother
    exact ⟨order, left, hsupported, rfl, hleft, horder⟩

/-- A header is read if the bytes start with its image, and if it is supported. -/
theorem read_eq_ok_iff (hholds : input.Holds bytes) : (Header.read input).1 = .ok header ↔
    ∃ order left, header.Supported order ∧ bytes = header.image order ++ left := by
  constructor
  · intro hok
    obtain ⟨order, left, hsupported, hbytes, -⟩ := image_of_read hholds (Prod.ext hok rfl)
    exact ⟨order, left, hsupported, hbytes⟩
  · rintro ⟨order, left, hsupported, rfl⟩
    exact (reads_of_supported hsupported hholds).result_eq

end Header
end ShaderBinary
