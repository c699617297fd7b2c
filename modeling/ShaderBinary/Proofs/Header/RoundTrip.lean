import ShaderBinary.Proofs.Module.Saving

/-!
# Headers in both directions

Reading and writing accept the same headers, and each undoes the other. `Header.Writes` says what an output
has taken once a header is written, and in which byte order it is left; `Header.Reads` says the like of an
input. The byte order that a stream had before plays no part in either.

Which headers and which bytes are accepted, and what becomes of a stream where one is not, is said in
`Header.WritesExactly` and `Header.ReadsExactly`, of bytes by their magic number (`Header.StartsIn`), their
number, and their version in the order that the magic number stands for (`Header.versionIn`). Both hold
without exception (`Header.write_read_exact`).
-/

namespace ShaderBinary

open Wire

namespace Header

variable {header : Header} {order : ByteOrder} {magic : Word} {bytes left : List UInt8}
  {input : Input} {output : Output}

/-! ## Magic numbers and versions on a stream -/

/-- The bytes start with the magic number that stands for this order. -/
def StartsIn (order : ByteOrder) (bytes : List UInt8) : Prop :=
  ByteOrder.big.toOctets (magicOf order) <+: bytes

instance (order : ByteOrder) (bytes : List UInt8) : Decidable (StartsIn order bytes) :=
  inferInstanceAs (Decidable (ByteOrder.big.toOctets (magicOf order) <+: bytes))

/-- The word behind the magic number, in this order. -/
def versionIn (order : ByteOrder) (bytes : List UInt8) : Word :=
  order.toWord ((bytes.drop 4).take 4)

/-- There are two magic numbers. -/
theorem exists_eq_magicOf_iff :
    (∃ order, magic = magicOf order) ↔ magic = magicNumber ∨ magic = magicNumber.reverseOctets := by
  constructor
  · rintro ⟨order, rfl⟩
    cases order with
    | little => exact .inl rfl
    | big => exact .inr rfl
  · rintro (h | h)
    · exact ⟨.little, h⟩
    · exact ⟨.big, h⟩

theorem orderOf_of_forall_ne (h : ∀ order, magic ≠ magicOf order) :
    orderOf magic = .error (.badMagic magic) := by
  cases horder : orderOf magic with
  | error failure => rw [orderOf_eq_error horder]
  | ok order => exact absurd (orderOf_eq_ok_iff.mp horder) (h order)

theorem startsIn_append_iff :
    StartsIn order (ByteOrder.big.toOctets magic ++ left) ↔ magic = magicOf order := by
  constructor
  · rintro ⟨rest, hrest⟩
    have hlength : (ByteOrder.big.toOctets (magicOf order)).length =
        (ByteOrder.big.toOctets magic).length := by
      rw [ByteOrder.length_toOctets, ByteOrder.length_toOctets]
    obtain ⟨hoctets, -⟩ := List.append_inj hrest hlength
    rw [← ByteOrder.toWord_toOctets .big magic, ← hoctets, ByteOrder.toWord_toOctets]
  · rintro rfl
    exact List.prefix_append _ _

/-- Twenty bytes that start with a magic number are a header, of whichever version. -/
theorem exists_image_of_startsIn (hstarts : StartsIn order bytes) (h : 20 ≤ bytes.length) :
    ∃ (header : Header) (left : List UInt8),
      header.magic = magicOf order ∧ bytes = header.image order ++ left := by
  obtain ⟨rest, rfl⟩ := hstarts
  rw [List.length_append, ByteOrder.length_toOctets] at h
  exact exists_image (magicOf order) order (by omega)

theorem startsIn_image_append (h : header.magic = magicOf order) :
    StartsIn order (header.image order ++ left) := by
  rw [image, List.append_assoc]
  exact startsIn_append_iff.mpr h

theorem versionIn_image_append (header : Header) (order : ByteOrder) (left : List UInt8) :
    versionIn order (header.image order ++ left) = header.version := by
  rw [versionIn, image, ByteOrder.bytesOf_cons, List.append_assoc, List.append_assoc,
    List.drop_left' (ByteOrder.length_toOctets _ _), List.take_left' (ByteOrder.length_toOctets _ _),
    ByteOrder.toWord_toOctets]

/-! ## Writing -/

/-- A header has been written: the output has taken these bytes, and is left in this order. -/
structure Writes (header : Header) (output : Output) (bytes : List UInt8) (order : ByteOrder) :
    Prop where
  result_eq : (header.write output).1 = .ok ()
  accepted_eq : (header.write output).2.sink.accepted.toList =
    output.sink.accepted.toList ++ bytes
  offset_eq : (header.write output).2.offset = output.offset + bytes.length
  order_eq : (header.write output).2.order = order

theorem writes_of_supported (h : header.Supported order)
    (haccepting : output.sink.disposition = .accepting) :
    header.Writes output (header.image order) order := by
  obtain ⟨last, hwrite, hlast⟩ := write_of_supported h output
  obtain ⟨next, hput, -⟩ := Output.putPieces_of_accepting haccepting (header.pieces order)
  have htook := Output.took_of_putPieces hput
  rw [flatten_pieces] at htook
  rw [hput] at hwrite hlast
  obtain rfl := hlast rfl
  apply Writes.mk
  · rw [hwrite]
  · rw [hwrite]
    exact htook.accepted_eq
  · rw [hwrite]
    exact htook.offset_eq
  · rw [hwrite]

theorem write_of_foreignMagic (h : ∀ order, header.magic ≠ magicOf order) (output : Output) :
    header.write output = (.error (.badMagic header.magic), output) := by
  apply write_of_error
  rw [writtenOrder, Header.order, orderOf_of_forall_ne h]

theorem write_of_foreignVersion (hmagic : header.magic = magicOf order)
    (h : header.version ≠ supportedVersion) (output : Output) :
    header.write output = (.error (.unsupportedVersion header.version), output) := by
  apply write_of_error
  rw [writtenOrder, Header.order, orderOf_eq_ok_iff.mpr hmagic]
  exact if_neg h

/-- A sink that accepts everything leaves only the header to be refused. -/
theorem write_eq_ok_iff (haccepting : output.sink.disposition = .accepting) :
    (header.write output).1 = .ok () ↔ ∃ order, header.Supported order := by
  constructor
  · intro hok
    cases horder : header.writtenOrder with
    | error failure =>
        rw [write_of_error horder] at hok
        cases hok
    | ok order => exact ⟨order, writtenOrder_eq_ok_iff.mp horder⟩
  · rintro ⟨order, h⟩
    exact (writes_of_supported h haccepting).result_eq

/-! ## Reading -/

/-- Which bytes start with the image of a supported header, told by the bytes. -/
theorem exists_supported_iff : (∃ header order left,
      Supported header order ∧ bytes = header.image order ++ left) ↔
    20 ≤ bytes.length ∧ ∃ order, StartsIn order bytes ∧ versionIn order bytes = supportedVersion := by
  constructor
  · rintro ⟨header, order, left, hsupported, rfl⟩
    obtain ⟨hmagic, hversion⟩ := supported_iff.mp hsupported
    refine ⟨?_, order, startsIn_image_append hmagic, ?_⟩
    · rw [List.length_append, length_image]
      omega
    · rw [versionIn_image_append, hversion]
  · rintro ⟨hlength, order, hstarts, hversion⟩
    obtain ⟨header, left, hmagic, rfl⟩ := exists_image_of_startsIn hstarts hlength
    rw [versionIn_image_append] at hversion
    exact ⟨header, order, left, supported_iff.mpr ⟨hmagic, hversion⟩, rfl⟩

theorem reads_of_lt (hstarts : StartsIn order bytes) (h : bytes.length < 20)
    (hholds : input.Holds bytes) :
    Reads input bytes (.error .truncated) bytes.length order := by
  obtain ⟨rest, rfl⟩ := hstarts
  rw [List.length_append, ByteOrder.length_toOctets] at h
  exact reads_partWords (orderOf_magicOf order) (by omega) hholds

theorem reads_foreignVersion (hstarts : StartsIn order bytes) (hlength : 20 ≤ bytes.length)
    (h : versionIn order bytes ≠ supportedVersion) (hholds : input.Holds bytes) :
    Reads input bytes (.error (.unsupportedVersion (versionIn order bytes))) 20 order := by
  obtain ⟨header, left, hmagic, rfl⟩ := exists_image_of_startsIn hstarts hlength
  rw [versionIn_image_append] at h ⊢
  have hreads := reads_image (orderOf_eq_ok_iff.mpr hmagic) hholds
  rwa [if_neg h] at hreads

/-! ## Both directions -/

/-- What writing a header to an output comes to. -/
structure WritesExactly (header : Header) (output : Output) : Prop where
  /-- The magic number has to be one of the two, and the version the supported one. -/
  ok_iff : (header.write output).1 = .ok () ↔
    (header.magic = magicNumber ∨ header.magic = magicNumber.reverseOctets) ∧
      header.version = supportedVersion
  /-- Then 20 bytes are written, in which any input finds the header again, whatever its byte order. -/
  reread : (header.write output).1 = .ok () → ∃ order bytes, header.magic = magicOf order ∧
    bytes.length = 20 ∧ header.Writes output bytes order ∧
    ∀ (input : Input) (left : List UInt8), input.Holds (bytes ++ left) →
      Reads input (bytes ++ left) (.ok header) 20 order
  /-- The magic number is looked at first, and nothing is written before. -/
  foreignMagic : ¬(header.magic = magicNumber ∨ header.magic = magicNumber.reverseOctets) →
    header.write output = (.error (.badMagic header.magic), output)
  foreignVersion : (header.magic = magicNumber ∨ header.magic = magicNumber.reverseOctets) →
    header.version ≠ supportedVersion →
      header.write output = (.error (.unsupportedVersion header.version), output)

/-- What reading a header from these bytes comes to. -/
structure ReadsExactly (input : Input) (bytes : List UInt8) : Prop where
  /-- All 20 bytes have to be there, and in the order that they start in their version is the supported
  one. -/
  ok_iff : (∃ header, (Header.read input).1 = .ok header) ↔ 20 ≤ bytes.length ∧
    ∃ order, StartsIn order bytes ∧ versionIn order bytes = supportedVersion
  /-- Then these 20 bytes are what the header is written as. -/
  rewritten : ∀ header, (Header.read input).1 = .ok header → ∃ order, StartsIn order bytes ∧
    Reads input bytes (.ok header) 20 order ∧
    ∀ output : Output, output.sink.disposition = .accepting →
      header.Writes output (bytes.take 20) order
  partMagic : bytes.length < 4 → Reads input bytes (.error .truncated) bytes.length input.order
  foreignMagic : 4 ≤ bytes.length → (∀ order, ¬StartsIn order bytes) →
    Reads input bytes (.error (.badMagic (ByteOrder.big.toWord (bytes.take 4)))) 4 input.order
  partWords : ∀ order, StartsIn order bytes → bytes.length < 20 →
    Reads input bytes (.error .truncated) bytes.length order
  foreignVersion : ∀ order, StartsIn order bytes → 20 ≤ bytes.length →
    versionIn order bytes ≠ supportedVersion →
      Reads input bytes (.error (.unsupportedVersion (versionIn order bytes))) 20 order

/-- A header is written if its magic number stands for a byte order and its version is supported, and
exactly the bytes of such headers are read. In either direction the stream is left in that order, 20 bytes
further on, and the other direction leads back. A header that is not written leaves the output as it was.
Bytes that are no such header are refused for the first thing that is wrong with them, and the input is left
where this was found: its byte order has changed only if the magic number was a good one. -/
theorem write_read_exact :
    (∀ (header : Header) (output : Output), output.sink.disposition = .accepting →
        header.WritesExactly output) ∧
      ∀ (input : Input) (bytes : List UInt8), input.Holds bytes → ReadsExactly input bytes := by
  constructor
  · intro header output haccepting
    apply WritesExactly.mk
    case ok_iff =>
      simp only [write_eq_ok_iff haccepting, supported_iff, exists_and_right, exists_eq_magicOf_iff]
    case reread =>
      intro hok
      obtain ⟨order, hsupported⟩ := (write_eq_ok_iff haccepting).mp hok
      exact ⟨order, header.image order, (supported_iff.mp hsupported).1, length_image order header,
        writes_of_supported hsupported haccepting,
        fun input left hholds => reads_of_supported hsupported hholds⟩
    case foreignMagic =>
      intro hmagic
      rw [← exists_eq_magicOf_iff, not_exists] at hmagic
      exact write_of_foreignMagic hmagic output
    case foreignVersion =>
      intro hmagic hversion
      obtain ⟨order, horder⟩ := exists_eq_magicOf_iff.mpr hmagic
      exact write_of_foreignVersion horder hversion output
  · intro input bytes hholds
    apply ReadsExactly.mk
    case ok_iff => simp only [read_eq_ok_iff hholds, exists_supported_iff]
    case rewritten =>
      intro header hok
      obtain ⟨order, left, hsupported, rfl⟩ := (read_eq_ok_iff hholds).mp hok
      refine ⟨order, startsIn_image_append (supported_iff.mp hsupported).1,
        reads_of_supported hsupported hholds, ?_⟩
      intro output haccepting
      rw [List.take_left' (length_image order header)]
      exact writes_of_supported hsupported haccepting
    case partMagic => exact reads_partMagic hholds
    case foreignMagic =>
      intro hlength hstarts
      obtain ⟨magic, left, rfl⟩ := exists_toOctets_append hlength
      simp only [startsIn_append_iff] at hstarts
      rw [List.take_left' (ByteOrder.length_toOctets _ _), ByteOrder.toWord_toOctets]
      exact reads_foreignMagic (orderOf_of_forall_ne hstarts) hholds
    case partWords => exact fun order hstarts hlength => reads_of_lt hstarts hlength hholds
    case foreignVersion =>
      exact fun order hstarts hlength hversion =>
        reads_foreignVersion hstarts hlength hversion hholds

/-- A header in big-endian order, with its bytes. -/
def bigEndian : Header :=
  ⟨0x03022307, 0x00010000, 7, 42, 0⟩

def bigEndianBytes : List UInt8 :=
  [0x03, 0x02, 0x23, 0x07, 0, 1, 0, 0, 0, 0, 0, 7, 0, 0, 0, 42, 0, 0, 0, 0]

/-- The header is written to an output in little-endian order, and read from its bytes. They are also cut off
behind ten bytes, and put behind the magic number of the other order, in which their version is another
one. -/
theorem write_read_exact_bigEndian :
    ((bigEndian.write (.ofSink .unbounded)).1 = .ok () ∧
        (∃ order bytes, bigEndian.magic = magicOf order ∧ bytes.length = 20 ∧
          bigEndian.Writes (.ofSink .unbounded) bytes order)) ∧
      (∃ order, StartsIn order bigEndianBytes ∧
        Reads (.ofSource (.ofBytes bigEndianBytes)) bigEndianBytes (.ok bigEndian) 20 order) ∧
      Reads (.ofSource (.ofBytes (bigEndianBytes.take 10))) (bigEndianBytes.take 10) (.error .truncated) 10
        .big ∧
      Reads (.ofSource (.ofBytes (ByteOrder.big.toOctets magicNumber ++ bigEndianBytes.drop 4)))
        (ByteOrder.big.toOctets magicNumber ++ bigEndianBytes.drop 4)
        (.error (.unsupportedVersion 0x00000100)) 20 .little := by
  obtain ⟨hwrites, hreads⟩ := write_read_exact
  have hbig := hwrites bigEndian (.ofSink .unbounded) rfl
  have hofBytes (bytes : List UInt8) : ReadsExactly (.ofSource (.ofBytes bytes)) bytes :=
    hreads _ bytes ⟨rfl, delivers_ofBytes bytes⟩
  have hok : (bigEndian.write (.ofSink .unbounded)).1 = .ok () :=
    hbig.ok_iff.mpr ⟨.inr (by decide +kernel), rfl⟩
  refine ⟨⟨hok, ?_⟩, ?_, ?_, ?_⟩
  · obtain ⟨order, bytes, hmagic, hlength, hwritten, -⟩ := hbig.reread hok
    exact ⟨order, bytes, hmagic, hlength, hwritten⟩
  · obtain ⟨order, hstarts, hread, -⟩ :=
      (hofBytes bigEndianBytes).rewritten bigEndian (by decide +kernel)
    exact ⟨order, hstarts, hread⟩
  · exact (hofBytes (bigEndianBytes.take 10)).partWords .big (by decide +kernel) (by decide)
  · exact (hofBytes (ByteOrder.big.toOctets magicNumber ++ bigEndianBytes.drop 4)).foreignVersion .little
      (by decide +kernel) (by decide) (by decide +kernel)

end Header
end ShaderBinary
