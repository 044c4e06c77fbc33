import Mathlib.Data.List.Basic
import ClauseReach.Text.Utf8

/-!
Runes stand for the bytes they were read from. A character is spelled by bytes that carry its bits and are no more than
it needs. Encoding writes such bytes, and reading takes exactly such bytes for a character. So the runes of an encoded
text are its characters, and the bytes of the runes are those that were read, the stray ones included.
-/

namespace ClauseReach.Text.Utf8

theorem toNat_byte {value : Nat} (small : value < 256) : (UInt8.ofNat value).toNat = value :=
  UInt8.toNat_ofNat_of_lt' small

/-- The byte behind the first one that carries these bits. -/
def follower (bits : Nat) : UInt8 := UInt8.ofNat (bits + 0x80)

/-- The first byte of a character, how many bytes follow it, the bits it carries, and the least character that needs
so many bytes. -/
inductive Shape : UInt8 → Nat → Nat → Nat → Prop
  | one {lead : Nat} (small : lead < 0x80) : Shape (UInt8.ofNat lead) 0 lead 0
  | two {lead : Nat} (small : lead < 32) : Shape (UInt8.ofNat (lead + 0xc0)) 1 lead 0x80
  | three {lead : Nat} (small : lead < 16) : Shape (UInt8.ofNat (lead + 0xe0)) 2 lead 0x800
  | four {lead : Nat} (small : lead < 8) : Shape (UInt8.ofNat (lead + 0xf0)) 3 lead 0x10000

/-- These bytes spell a character: they carry its bits, and it needs all of them. -/
inductive Spells (byte : UInt8) (bits : List Nat) (c : Char) : Prop
  | intro {lead least : Nat} (shape : Shape byte bits.length lead least) (small : ∀ part ∈ bits, part < 64)
      (code : bits.foldl (64 * · + ·) lead = c.toNat) (needed : least ≤ c.toNat)

/-! ### Encoding -/

theorem exists_spells (c : Char) : ∃ byte bits, Spells byte bits c := by
  have valid : c.toNat < 0xd800 ∨ 0xdfff < c.toNat ∧ c.toNat < 0x110000 := c.valid
  by_cases one : c.toNat < 0x80
  · exact ⟨_, [], .intro (.one one) (by simp) rfl (Nat.zero_le _)⟩
  by_cases two : c.toNat < 0x800
  · refine ⟨_, [c.toNat % 64], .intro (.two (show c.toNat / 64 < 32 by omega)) (by simp [Nat.mod_lt]) ?_ (by omega)⟩
    simp only [List.foldl_cons, List.foldl_nil]
    omega
  by_cases three : c.toNat < 0x10000
  · refine ⟨_, [c.toNat / 64 % 64, c.toNat % 64],
      .intro (.three (show c.toNat / 4096 < 16 by omega)) (by simp [Nat.mod_lt]) ?_ (by omega)⟩
    simp only [List.foldl_cons, List.foldl_nil]
    omega
  · refine ⟨_, [c.toNat / 4096 % 64, c.toNat / 64 % 64, c.toNat % 64],
      .intro (.four (show c.toNat / 262144 < 8 by omega)) (by simp [Nat.mod_lt]) ?_ (by omega)⟩
    simp only [List.foldl_cons, List.foldl_nil]
    omega

variable {byte : UInt8} {bits : List Nat} {c : Char}

theorem Spells.encode (spells : Spells byte bits c) : encodeChar c = byte :: bits.map follower := by
  obtain @⟨lead, least, shape, small, code, needed⟩ := spells
  have number : c.val.toNat = c.toNat := rfl
  rw [encodeChar, String.utf8EncodeChar.eq_1, number]
  generalize c.toNat = value at code needed
  generalize many : bits.length = count at shape
  cases shape with
  | one fits =>
    obtain rfl := List.length_eq_zero_iff.mp many
    simp only [List.foldl_nil] at code
    rw [if_pos (by omega), code]
    rfl
  | two fits =>
    obtain ⟨first, rfl⟩ := List.length_eq_one_iff.mp many
    simp only [List.mem_singleton, forall_eq, List.foldl_cons, List.foldl_nil] at small code
    have parts : value / 64 % 32 = lead ∧ value % 64 = first := by omega
    rw [if_neg (by omega), if_pos (by omega), parts.1, parts.2]
    rfl
  | three fits =>
    obtain ⟨first, second, rfl⟩ := List.length_eq_two.mp many
    simp only [List.mem_cons, List.not_mem_nil, or_false, forall_eq_or_imp, forall_eq, List.foldl_cons,
      List.foldl_nil] at small code
    have parts : value / 4096 % 16 = lead ∧ value / 64 % 64 = first ∧ value % 64 = second := by omega
    rw [if_neg (by omega), if_neg (by omega), if_pos (by omega), parts.1, parts.2.1, parts.2.2]
    rfl
  | four fits =>
    obtain ⟨first, second, third, rfl⟩ := List.length_eq_three.mp many
    simp only [List.mem_cons, List.not_mem_nil, or_false, forall_eq_or_imp, forall_eq, List.foldl_cons,
      List.foldl_nil] at small code
    have parts : value / 262144 % 8 = lead ∧ value / 4096 % 64 = first ∧ value / 64 % 64 = second ∧
      value % 64 = third := by omega
    rw [if_neg (by omega), if_neg (by omega), if_neg (by omega), parts.1, parts.2.1, parts.2.2.1, parts.2.2.2]
    rfl

/-! ### Reading -/

theorem continuation?_iff {part : Nat} : continuation? byte = some part ↔ byte = follower part ∧ part < 64 := by
  have least : (0x80 : UInt8).toNat = 0x80 := rfl
  have limit : (0xc0 : UInt8).toNat = 0xc0 := rfl
  simp only [continuation?, UInt8.le_iff_toNat_le, UInt8.lt_iff_toNat_lt, least, limit]
  constructor
  · intro found
    split at found
    · rename_i bounds
      obtain rfl := Option.some.inj found
      exact ⟨by rw [follower, Nat.sub_add_cancel bounds.1, UInt8.ofNat_toNat], by omega⟩
    · exact absurd found nofun
  · intro given
    obtain ⟨rfl, small⟩ := given
    have value : (follower part).toNat = part + 0x80 := toNat_byte (by omega)
    rw [value, if_pos (by omega), Nat.add_sub_cancel]

theorem shape?_iff {count lead least : Nat} :
    shape? byte = some (count, lead, least) ↔ Shape byte count lead least := by
  constructor
  · obtain ⟨value, small, rfl⟩ : ∃ value < 256, byte = UInt8.ofNat value :=
      ⟨byte.toNat, byte.toNat_lt, UInt8.ofNat_toNat.symm⟩
    simp only [shape?, toNat_byte small]
    intro found
    split at found
    · rename_i bound
      simp only [Option.some.injEq, Prod.mk.injEq] at found
      obtain ⟨rfl, rfl, rfl⟩ := found
      exact .one bound
    split at found
    · exact absurd found nofun
    split at found
    · simp only [Option.some.injEq, Prod.mk.injEq] at found
      obtain ⟨rfl, rfl, rfl⟩ := found
      have whole : value - 0xc0 + 0xc0 = value := by omega
      simpa only [whole] using Shape.two (show value - 0xc0 < 32 by omega)
    split at found
    · simp only [Option.some.injEq, Prod.mk.injEq] at found
      obtain ⟨rfl, rfl, rfl⟩ := found
      have whole : value - 0xe0 + 0xe0 = value := by omega
      simpa only [whole] using Shape.three (show value - 0xe0 < 16 by omega)
    split at found
    · simp only [Option.some.injEq, Prod.mk.injEq] at found
      obtain ⟨rfl, rfl, rfl⟩ := found
      have whole : value - 0xf0 + 0xf0 = value := by omega
      simpa only [whole] using Shape.four (show value - 0xf0 < 8 by omega)
    · exact absurd found nofun
  · intro shape
    cases shape with
    | one small =>
      simp only [shape?, toNat_byte (show lead < 256 by omega)]
      rw [if_pos small]
    | two small =>
      simp only [shape?, toNat_byte (show lead + 0xc0 < 256 by omega)]
      rw [if_neg (by omega), if_neg (by omega), if_pos (by omega), Nat.add_sub_cancel]
    | three small =>
      simp only [shape?, toNat_byte (show lead + 0xe0 < 256 by omega)]
      rw [if_neg (by omega), if_neg (by omega), if_neg (by omega), if_pos (by omega), Nat.add_sub_cancel]
    | four small =>
      simp only [shape?, toNat_byte (show lead + 0xf0 < 256 by omega)]
      rw [if_neg (by omega), if_neg (by omega), if_neg (by omega), if_neg (by omega), if_pos (by omega),
        Nat.add_sub_cancel]

theorem foldlM_iff {bytes : Bytes} {lead code : Nat} :
    bytes.foldlM (fun code byte => (continuation? byte).map (64 * code + ·)) lead = some code ↔
      ∃ bits : List Nat, bytes = bits.map follower ∧ (∀ part ∈ bits, part < 64) ∧
        bits.foldl (64 * · + ·) lead = code := by
  induction bytes generalizing lead with
  | nil => simp [eq_comm]
  | cons byte rest ih =>
    rw [List.foldlM_cons]
    constructor
    · intro folded
      obtain ⟨middle, first, further⟩ := Option.bind_eq_some_iff.mp folded
      obtain ⟨part, found, rfl⟩ := Option.map_eq_some_iff.mp first
      obtain ⟨rfl, fits⟩ := continuation?_iff.mp found
      obtain ⟨bits, rfl, small, code⟩ := ih.mp further
      exact ⟨part :: bits, rfl, List.forall_mem_cons.mpr ⟨fits, small⟩, code⟩
    · intro given
      obtain ⟨bits, same, small, code⟩ := given
      cases bits with
      | nil => cases same
      | cons part bits =>
        obtain ⟨rfl, rfl⟩ := List.cons.inj same
        obtain ⟨fits, small⟩ := List.forall_mem_cons.mp small
        rw [continuation?_iff.mpr ⟨rfl, fits⟩]
        exact ih.mpr ⟨bits, rfl, small, code⟩

theorem assemble?_iff {lead least code : Nat} {followers : Bytes} : assemble? lead least followers = some code ↔
    (∃ bits : List Nat, followers = bits.map follower ∧ (∀ part ∈ bits, part < 64) ∧
      bits.foldl (64 * · + ·) lead = code) ∧
    least ≤ code ∧ code ≤ 0x10ffff ∧ ¬(0xd800 ≤ code ∧ code ≤ 0xdfff) := by
  rw [← foldlM_iff]
  unfold assemble?
  cases followers.foldlM (fun code byte => (continuation? byte).map (64 * code + ·)) lead with
  | none => simp
  | some other =>
    simp only [bind, Option.bind]
    split
    · rename_i bounds
      constructor
      · intro same
        obtain rfl := Option.some.inj same
        exact ⟨rfl, bounds⟩
      · exact fun given => given.1
    · rename_i bounds
      constructor
      · exact nofun
      · intro given
        obtain ⟨same, given⟩ := given
        obtain rfl := Option.some.inj same
        exact absurd given bounds

theorem toNat_ofNat {code : Nat} (bounds : code ≤ 0x10ffff ∧ ¬(0xd800 ≤ code ∧ code ≤ 0xdfff)) :
    (Char.ofNat code).toNat = code := by
  have valid : code.isValidChar := by
    unfold Nat.isValidChar
    omega
  rw [Char.ofNat, dif_pos valid]
  rfl

theorem read_of_shape {count lead least : Nat} (found : shape? byte = some (count, lead, least)) (rest : Bytes) :
    read byte rest = (if (rest.take count).length < count then none
      else (assemble? lead least (rest.take count)).bind fun code => some (.char (Char.ofNat code), count)).getD
        (.stray byte, 0) := by
  rw [read, found]
  rfl

theorem Spells.read (spells : Spells byte bits c) (rest : Bytes) :
    read byte (bits.map follower ++ rest) = (.char c, bits.length) := by
  obtain @⟨lead, least, shape, small, code, needed⟩ := spells
  have valid : c.toNat < 0xd800 ∨ 0xdfff < c.toNat ∧ c.toNat < 0x110000 := c.valid
  have found := shape?_iff.mpr shape
  have assembled : assemble? lead least (bits.map follower) = some c.toNat :=
    assemble?_iff.mpr ⟨⟨bits, rfl, small, code⟩, needed, by omega, by omega⟩
  have taken : (bits.map follower ++ rest).take bits.length = bits.map follower :=
    List.take_left' (List.length_map follower)
  rw [read_of_shape found, taken, List.length_map, if_neg (Nat.lt_irrefl _), assembled, Option.bind_some,
    Option.getD_some, Char.ofNat_toNat]

/-- Everything that can be read: a byte by itself, or a character that it spells with those behind it. -/
theorem read_cases (byte : UInt8) (rest : Bytes) : read byte rest = (.stray byte, 0) ∨
    ∃ bits c later, rest = bits.map follower ++ later ∧ Spells byte bits c ∧
      read byte rest = (.char c, bits.length) := by
  cases found : shape? byte with
  | none => exact .inl (by rw [read, found]; rfl)
  | some shape =>
    obtain ⟨count, lead, least⟩ := shape
    by_cases short : (rest.take count).length < count
    · exact .inl (by rw [read_of_shape found, if_pos short, Option.getD_none])
    cases assembled : assemble? lead least (rest.take count) with
    | none => exact .inl (by rw [read_of_shape found, if_neg short, assembled, Option.bind_none, Option.getD_none])
    | some code =>
      obtain ⟨⟨bits, taken, small, whole⟩, needed, bounds⟩ := assemble?_iff.mp assembled
      -- The bounds that were checked are those of a character, so its code is the one assembled.
      have number := toNat_ofNat bounds
      have many : bits.length = count := by
        rw [← List.length_map follower, ← taken]
        exact Nat.le_antisymm (List.length_take_le count rest) (Nat.not_lt.mp short)
      have spells : Spells byte bits (Char.ofNat code) :=
        .intro (shape?_iff.mp (many ▸ found)) small (whole.trans number.symm) (number.symm ▸ needed)
      have cut : rest = bits.map follower ++ rest.drop count := by rw [← taken, List.take_append_drop]
      refine .inr ⟨bits, _, _, cut, spells, ?_⟩
      rw [cut]
      exact spells.read _

/-! ### Runes -/

theorem runesAfter_append (passed rest : Bytes) : runesAfter passed.length (passed ++ rest) = runes rest := by
  induction passed with
  | nil => rfl
  | cons byte passed ih => exact ih

theorem runes_stray {rest : Bytes} (stray : read byte rest = (.stray byte, 0)) :
    runes (byte :: rest) = .stray byte :: runes rest := by
  rw [runes, runesAfter, stray]
  rfl

theorem Spells.runes (spells : Spells byte bits c) (rest : Bytes) :
    runes (byte :: (bits.map follower ++ rest)) = .char c :: runes rest := by
  rw [Utf8.runes, runesAfter, spells.read]
  change Rune.char c :: runesAfter bits.length _ = _
  rw [← List.length_map follower, runesAfter_append]

/-- The runes of an encoded text are its characters. -/
theorem runes_encode (text : String) : runes (encode text) = text.toList.map .char := by
  unfold encode
  induction text.toList with
  | nil => rfl
  | cons c rest ih =>
    obtain ⟨byte, bits, spells⟩ := exists_spells c
    rw [List.flatMap_cons, spells.encode, List.cons_append, spells.runes, ih, List.map_cons]

/-- The bytes of the runes are the bytes that were read. The induction is on how many there are, since a character takes
several. -/
theorem flatMap_bytes_runes (bytes : Bytes) : (runes bytes).flatMap Rune.bytes = bytes := by
  induction many : bytes.length using Nat.strongRecOn generalizing bytes with
  | ind count ih =>
    cases bytes with
    | nil => rfl
    | cons byte rest =>
      rw [List.length_cons] at many
      obtain stray | ⟨bits, c, later, rfl, spells, _⟩ := read_cases byte rest
      · rw [runes_stray stray, List.flatMap_cons, ih rest.length (by omega) rest rfl]
        rfl
      · rw [List.length_append] at many
        rw [spells.runes, List.flatMap_cons, ih later.length (by omega) later rfl, Rune.bytes, spells.encode]
        rfl

end ClauseReach.Text.Utf8
