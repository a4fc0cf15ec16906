import PdfCanvas.Proofs.Filter.Lzw.Codes
import PdfCanvas.Proofs.Outcomes

/-!
# Variants of LZW data

Of data that are cut short the end code is missing, so they are tried with the other variant. That may find an
end code where there is none, but not before a place at which the variants ask for codes of different lengths.
Up to there both read the same codes, so that many bytes of the answer are right.
-/

namespace PdfCanvas

namespace Lzw

section

variable {early other : Bool} {table : Table} {code : Nat} {codes : List Nat} {spelling : Spelling}

/-! ## Codes that both variants write alike -/

/-- Codes that both variants write alike, and behind which they ask for codes of different lengths. -/
structure PartsAt (early other : Bool) (table : Table) (codes : List Nat) (place : Spelling) : Prop where
  spelled : spell early table codes = some place
  alike : spell other table codes = some place
  differ : place.table.width early ≠ place.table.width other

theorem PartsAt.cons {string : Bytes} {next : Table} {place : Spelling}
    (parts : PartsAt early other next codes place) (same : table.width early = table.width other)
    (small : code < 2 ^ table.width early) (followed : table.follow code = some (string, next)) :
    PartsAt early other table (code :: codes) (place.cons (table.bitsOf early code) string) where
  spelled := spell_cons.mpr ⟨small, string, next, place, followed, parts.spelled, rfl⟩
  alike := by
    have bits : table.bitsOf early code = table.bitsOf other code := by
      rw [Table.bitsOf, same, Table.bitsOf]
    rw [bits]
    exact spell_cons.mpr ⟨same ▸ small, string, next, place, followed, parts.alike, rfl⟩
  differ := parts.differ

/-- If the codes of one variant end while those of the other go on, they part somewhere. Up to there they
stand for the same bytes. -/
theorem exists_partsAt {others : List Nat} {another : Spelling} {padding more : Bits}
    (spelled : spell early table codes = some spelling)
    (spelledOthers : spell other table others = some another)
    (same : spelling.ended early ++ padding = another.ended other ++ more)
    (goesOn : padding.length < more.length) :
    ∃ common place behind, PartsAt early other table common place ∧ common <+: codes ∧
      another.ended other = place.bits ++ behind ∧
      place.bytes <+: spelling.bytes ∧ place.bytes <+: another.bytes := by
  -- As long as both ask for codes of one length, the same bits give them the same codes.
  induction codes generalizing table spelling others another with
  | nil =>
    by_cases sameWidth : table.width early = table.width other
    case neg =>
      exact ⟨[], ⟨[], [], table⟩, _, ⟨rfl, rfl, sameWidth⟩, List.nil_prefix, rfl, List.nil_prefix,
        List.nil_prefix⟩
    cases spelled
    rw [Spelling.ended_nil] at same
    cases others with
    | nil =>
      cases spelledOthers
      obtain ⟨_, rfl⟩ :=
        Table.bitsOf_append_inj sameWidth (table.end_lt early) (table.end_lt other) same
      exact absurd goesOn (Nat.lt_irrefl _)
    | cons first others =>
      -- the code that the other one goes on with would be the end code
      obtain ⟨small, _, _, _, followed, _, rfl⟩ := spell_cons.mp spelledOthers
      rw [Spelling.ended_cons, List.append_assoc] at same
      obtain ⟨rfl, _⟩ := Table.bitsOf_append_inj sameWidth (table.end_lt early) small same
      exact absurd rfl (Table.ne_end_of_follow followed)
  | cons code codes inductionHypothesis =>
    by_cases sameWidth : table.width early = table.width other
    case neg =>
      exact ⟨[], ⟨[], [], table⟩, _, ⟨rfl, rfl, sameWidth⟩, List.nil_prefix, rfl, List.nil_prefix,
        List.nil_prefix⟩
    obtain ⟨small, string, next, rest, followed, spelledRest, rfl⟩ := spell_cons.mp spelled
    rw [Spelling.ended_cons, List.append_assoc] at same
    cases others with
    | nil =>
      cases spelledOthers
      rw [Spelling.ended_nil] at same
      obtain ⟨rfl, _⟩ := Table.bitsOf_append_inj sameWidth small (table.end_lt other) same
      exact absurd rfl (Table.ne_end_of_follow followed)
    | cons first others =>
      obtain ⟨smallFirst, _, _, others, followedFirst, spelledOthers, rfl⟩ :=
        spell_cons.mp spelledOthers
      rw [Spelling.ended_cons, List.append_assoc] at same
      obtain ⟨rfl, sameRest⟩ := Table.bitsOf_append_inj sameWidth small smallFirst same
      obtain ⟨rfl, rfl⟩ := Prod.mk.inj (Option.some.inj (followed.symm.trans followedFirst))
      obtain ⟨common, place, behind, parts, front, reached, bytes, bytesOthers⟩ :=
        inductionHypothesis spelledRest spelledOthers sameRest
      refine ⟨code :: common, _, behind, parts.cons sameWidth small followed,
        List.cons_prefix_cons.mpr ⟨rfl, front⟩, ?_, (List.prefix_append_right_inj string).mpr bytes,
        (List.prefix_append_right_inj string).mpr bytesOthers⟩
      rw [Spelling.ended_cons, reached, ← List.append_assoc, Spelling.cons, Table.bitsOf, Table.bitsOf,
        sameWidth]

end

/-! ## Where variants part -/

namespace Table

variable {t : Table} {count : Nat}

/-- Codes get longer at one string, or one string earlier. -/
theorem many_of_width_ne {early other : Bool} (differ : t.width early ≠ t.width other) :
    t.next + 1 = 512 ∨ t.next + 1 = 1024 ∨ t.next + 1 = 2048 := by
  have first := early.toNat_le
  have second := other.toNat_le
  unfold width at differ
  dsimp only at differ
  generalize early.toNat = one at first differ
  generalize other.toNat = another at second differ
  grind

/-- The strings in the table are not empty, and fewer than the bytes that were read. -/
structure IsFilledBy (t : Table) (count : Nat) : Prop where
  strings : ∀ string ∈ t.strings, string ≠ []
  previous : t.previous ≠ some []
  fewer : t = cleared ∨ t.strings.size < count

theorem isFilledBy_cleared (count : Nat) : cleared.IsFilledBy count where
  strings := by simp [cleared]
  previous := by simp [cleared]
  fewer := .inl rfl

theorem IsFilledBy.ne_nil_of_string? (filled : t.IsFilledBy count) {code : Nat} {string : Bytes}
    (found : t.string? code = some string) : string ≠ [] := by
  unfold string? at found
  split at found
  · cases found
    exact List.cons_ne_nil _ _
  split at found
  · cases found
  split at found
  next there =>
    cases found
    exact filled.strings _ (Array.mem_of_getElem? there)
  next previous _ last =>
    split at found
    · cases found
      intro none
      exact filled.previous (by rw [last, (List.append_eq_nil_iff.mp none).1])
    · cases found
  next => cases found

/-- Each string that is read adds one string at most to the table. -/
theorem IsFilledBy.read (filled : t.IsFilledBy count) {string : Bytes} (nonempty : string ≠ []) :
    (t.read string).IsFilledBy (count + string.length) := by
  have more := List.length_pos_iff.mpr nonempty
  have last : some string ≠ some [] := by simpa using nonempty
  unfold Table.read
  split
  next previous there =>
    have nonemptyPrevious : previous ≠ [] := by
      rintro rfl
      exact filled.previous there
    have fewer : t.strings.size < count := by
      obtain rfl | fewer := filled.fewer
      · cases there
      · exact fewer
    split
    · refine ⟨?_, last, .inr (by simp only [Array.size_push]; omega)⟩
      intro added member
      rcases Array.mem_push.mp member with there | rfl
      · exact filled.strings _ there
      · exact List.append_ne_nil_of_left_ne_nil nonemptyPrevious _
    · exact ⟨filled.strings, last, .inr (by dsimp only; omega)⟩
  next =>
    refine ⟨filled.strings, last, .inr ?_⟩
    obtain rfl | fewer := filled.fewer
    · exact Nat.lt_of_lt_of_le more (Nat.le_add_left _ _)
    · dsimp only
      omega

theorem IsFilledBy.follow (filled : t.IsFilledBy count) {code : Nat} {string : Bytes} {next : Table}
    (followed : t.follow code = some (string, next)) : next.IsFilledBy (count + string.length) := by
  unfold Table.follow at followed
  split at followed
  · cases followed
    exact isFilledBy_cleared _
  · obtain ⟨_, found, same⟩ := Option.map_eq_some_iff.mp followed
    cases same
    exact filled.read (filled.ne_nil_of_string? found)

theorem IsFilledBy.spell (filled : t.IsFilledBy count) {early : Bool} {codes : List Nat}
    {spelling : Spelling} (spelled : spell early t codes = some spelling) :
    spelling.table.IsFilledBy (count + spelling.bytes.length) := by
  induction codes generalizing t count spelling with
  | nil =>
    cases spelled
    exact filled
  | cons code codes inductionHypothesis =>
    obtain ⟨_, string, next, others, followed, spelledOthers, rfl⟩ := spell_cons.mp spelled
    have filledOthers := inductionHypothesis (filled.follow followed) spelledOthers
    rwa [Nat.add_assoc, ← List.length_append] at filledOthers

end Table

/-- The variants part behind a lot of bytes only. -/
theorem PartsAt.long {early other : Bool} {codes : List Nat} {place : Spelling}
    (parts : PartsAt early other .cleared codes place) :
    place.table.strings.size ∈ [253, 765, 1789] ∧ 254 ≤ place.bytes.length := by
  have passed := Table.many_of_width_ne parts.differ
  obtain cleared | fewer := ((Table.isFilledBy_cleared 0).spell parts.spelled).fewer
  · rw [cleared] at passed
    simp [Table.next, Table.cleared] at passed
  · rw [Table.next] at passed
    simp only [List.mem_cons]
    omega

/-! ## Pages -/

namespace Page

theorem write_of_less {page : Page} (reading : Reading) {string : Bytes}
    (inUse : page.isIdle = false) (less : string.length < page.room) :
    ∃ written, page.write reading string = some written ∧ written.isIdle = false ∧
      written.room = page.room - string.length := by
  have fetched : (if page.group = 0 then page.fetch reading else page).room = page.room ∧
      (if page.group = 0 then page.fetch reading else page).isIdle = page.isIdle := by
    split <;> exact ⟨rfl, rfl⟩
  unfold write
  generalize (if page.group = 0 then page.fetch reading else page) = fresh at fetched
  obtain ⟨room, idle⟩ := fetched
  dsimp only
  rw [if_neg (by omega), if_neg (by omega)]
  exact ⟨_, rfl, idle.trans inUse, congrArg (· - string.length) room⟩

/-- What does not fill a page is written to it. -/
theorem accepts_of_short {readings : List Reading} {page : Option Page}
    (inUse : ∀ p ∈ page, p.isIdle = false ∧ p.room ≤ size)
    (short : (bytesOf readings).length < page.elim size room) : accepts page readings = true := by
  induction readings generalizing page with
  | nil => cases page <;> rfl
  | cons reading readings inductionHypothesis =>
    have fresh : ∀ p ∈ (none : Option Page), p.isIdle = false ∧ p.room ≤ size := nofun
    rw [bytesOf, List.flatMap_cons, List.length_append, ← bytesOf] at short
    cases given : reading.string with
    | none =>
      rw [given, Option.getD_none, List.length_nil, Nat.zero_add] at short
      cases page with
      | none =>
        simp only [accepts, given]
        exact inductionHypothesis fresh short
      | some page =>
        obtain ⟨inUse, room⟩ := inUse page rfl
        simp only [accepts, given, inUse, Bool.not_false, Bool.true_and]
        exact inductionHypothesis fresh (Nat.lt_of_lt_of_le short room)
    | some string =>
      rw [given, Option.getD_some] at short
      cases page with
      | none =>
        simp only [accepts, given]
        refine inductionHypothesis ?_ (Nat.lt_sub_of_add_lt (Nat.add_comm _ _ ▸ short))
        rintro _ ⟨⟩
        exact ⟨rfl, Nat.sub_le _ _⟩
      | some page =>
        obtain ⟨inUse, room⟩ := inUse page rfl
        change _ < page.room at short
        obtain ⟨written, wrote, stillInUse, left⟩ :=
          write_of_less reading inUse (Nat.lt_of_le_of_lt (Nat.le_add_right _ _) short)
        simp only [accepts, given, wrote]
        refine inductionHypothesis ?_ ?_
        · rintro _ ⟨⟩
          exact ⟨stillInUse, by omega⟩
        · change _ < written.room
          omega

end Page

/-- The strings in the data can be written to pages. -/
def FitsPages (early : Bool) (data : Bytes) : Prop :=
  ∀ readings, readCodes early (8 * data.length + 1) (8 * data.length) .cleared (Bits.highFirst data) =
    some readings → Page.accepts none readings = true

/-! ## Decoding -/

section

variable {early other : Bool} {codes : List Nat} {bytes data out : Bytes}

theorem decodeVariant_eq_some : decodeVariant early data = some bytes ↔
    ∃ readings, readCodes early (8 * data.length + 1) (8 * data.length) .cleared
      (Bits.highFirst data) = some readings ∧ Page.accepts none readings = true ∧
      bytesOf readings = bytes := by
  rw [decodeVariant, Option.bind_eq_bind, Option.bind_eq_some_iff]
  simp only [Option.pure_def, Option.ite_none_right_eq_some, Option.some.injEq]
  rfl

theorem IsStream.exists_readings (stream : IsStream early codes bytes data) :
    ∃ readings, readCodes early (8 * data.length + 1) (8 * data.length) .cleared
      (Bits.highFirst data) = some readings ∧ bytesOf readings = bytes := by
  obtain ⟨spelling, spelled, rfl, ⟨padding, whole⟩, _⟩ := stream
  have length := congrArg List.length whole
  rw [List.length_append, Spelling.ended, List.length_append, Bits.length_highFirst] at length
  have enough : codes.length < 8 * data.length + 1 := by
    have := length_le_of_spell spelled
    omega
  have read := readBytes_ended spelled enough (8 * data.length) padding
  rw [whole] at read
  exact Option.map_eq_some_iff.mp read

theorem IsStream.decodeVariant (stream : IsStream early codes bytes data) (fits : FitsPages early data) :
    decodeVariant early data = some bytes := by
  obtain ⟨readings, read, same⟩ := stream.exists_readings
  exact decodeVariant_eq_some.mpr ⟨readings, read, fits readings read, same⟩

/-- Data that stand for less than a page fit. -/
theorem IsStream.fitsPages (stream : IsStream early codes bytes data) (short : bytes.length < Page.size) :
    FitsPages early data := by
  obtain ⟨readings, read, rfl⟩ := stream.exists_readings
  intro same readSame
  obtain rfl := Option.some.inj (read.symm.trans readSame)
  exact Page.accepts_of_short nofun short

/-- A variant that reads the front of data parts from the one that the data are of. -/
theorem IsStream.partsAt_of_take (stream : IsStream early codes bytes data) {count : Nat}
    (isCut : count < data.length) (decoded : Lzw.decodeVariant other (data.take count) = some out) :
    ∃ common place behind, PartsAt early other .cleared common place ∧ common <+: codes ∧
      Bits.highFirst (data.take count) = place.bits ++ behind ∧
      place.bytes <+: bytes ∧ place.bytes <+: out := by
  obtain ⟨readings, read, _, rfl⟩ := decodeVariant_eq_some.mp decoded
  obtain ⟨others, another, rest, spelledOthers, same, front⟩ :=
    exists_spell (Option.map_eq_some_iff.mpr ⟨readings, read, rfl⟩)
  obtain ⟨spelling, spelled, rfl, ⟨padding, whole⟩, less⟩ := stream
  have split := Bits.highFirst_append (data.take count) (data.drop count)
  rw [List.take_append_drop, ← whole, front, List.append_assoc] at split
  have shorter : padding.length < (rest ++ Bits.highFirst (data.drop count)).length := by
    have length := congrArg List.length whole
    rw [List.length_append, Bits.length_highFirst] at length
    rw [List.length_append, Bits.length_highFirst, List.length_drop]
    omega
  obtain ⟨common, place, behind, parts, isFront, reached, bytes, bytesOthers⟩ :=
    exists_partsAt spelled spelledOthers split shorter
  refine ⟨common, place, behind ++ rest, parts, isFront, ?_, bytes, same ▸ bytesOthers⟩
  rw [front, reached, List.append_assoc]

/-- Data that fit pages, as all do that stand for less than a page, are decoded to what they stand for. Cut
short they are not decoded, or else as the other variant, which has read the same codes up to a place at which
the variants ask for codes of different lengths; the bytes before that place are right. -/
theorem cut_data_are_right_before_variants_part (stream : IsStream early codes bytes data) :
    (bytes.length < Page.size ∨ FitsPages early data → decode early data = .ok bytes) ∧
    ∀ count < data.length, ∀ out, decode early (data.take count) = .ok out →
      Lzw.decodeVariant (!early) (data.take count) = some out ∧
      ∃ common place behind, PartsAt early (!early) .cleared common place ∧ common <+: codes ∧
        Bits.highFirst (data.take count) = place.bits ++ behind ∧
        place.table.strings.size ∈ [253, 765, 1789] ∧ 254 ≤ place.bytes.length ∧
        place.bytes <+: bytes ∧ place.bytes <+: out := by
  constructor
  · intro fits
    have fits : FitsPages early data := fits.elim stream.fitsPages id
    rw [decode, stream.decodeVariant fits]
  · intro count isCut out decoded
    have unread : Lzw.decodeVariant early (data.take count) = none := by
      apply Option.eq_none_iff_forall_ne_some.mpr
      intro bytes read
      obtain ⟨_, _, _, parts, _⟩ := stream.partsAt_of_take isCut read
      exact parts.differ rfl
    rw [decode, unread] at decoded
    dsimp only at decoded
    split at decoded
    next bytes read =>
      cases decoded
      obtain ⟨common, place, behind, parts, front, reached, bytes, bytesOut⟩ :=
        stream.partsAt_of_take isCut read
      obtain ⟨strings, long⟩ := parts.long
      exact ⟨read, common, place, behind, parts, front, reached, strings, long, bytes, bytesOut⟩
    next => cases decoded

/-- The code of one byte. -/
def oneByte : Bytes := [0x80, 0x10, 0x60, 0x20]

theorem one_byte_is_decoded_whole_only :
    IsStream true [256, 65] [65] oneByte ∧ decode true oneByte = .ok [65] ∧
      ∀ count < 4, ∀ out, decode true (oneByte.take count) ≠ .ok out := by
  have stream : IsStream true [256, 65] [65] oneByte := by decide +kernel
  obtain ⟨whole, cut⟩ := cut_data_are_right_before_variants_part stream
  refine ⟨stream, whole (.inl (by decide)), ?_⟩
  intro count isCut out decoded
  obtain ⟨_, _, _, _, _, _, _, _, long, front, _⟩ := cut count isCut out decoded
  have short := Nat.le_trans long front.length_le
  exact absurd short (by decide)

/-- So many codes of one byte that the last of them take ten bits. -/
def manyTwos : Bytes :=
  [0x80, 0x00, 0x80, 0x40, 0x20, 0x10, 0x08, 0x04, 0x02] ++
    (List.replicate 30 [0x01, 0x00, 0x80, 0x40, 0x20, 0x10, 0x08, 0x04, 0x02]).flatten ++
    [0x01, 0x00, 0x80, 0x40, 0x20, 0x10, 0x08, 0x04, 0x01, 0x00, 0x40, 0x14, 0x04, 0x80, 0x80]

/-- Without the last two bytes the data end in the other variant. -/
theorem cut_data_end_in_the_other_variant :
    IsStream true (256 :: List.replicate 257 2 ++ [514]) (List.replicate 259 2) manyTwos ∧
      decode true manyTwos = .ok (List.replicate 259 2) ∧
      decode true (manyTwos.take 292) = .ok (List.replicate 254 2 ++ [1, 1, 1]) ∧
      ¬List.replicate 254 (2 : UInt8) ++ [1, 1, 1] <+: List.replicate 259 2 := by
  refine ⟨by decide +kernel, ?_, ?_, by decide +kernel⟩
  · exact eq_ok_of_toOption (by decide +kernel)
  · exact eq_ok_of_toOption (by decide +kernel)

end

end Lzw

end PdfCanvas
