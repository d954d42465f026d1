import GoSite.GoBytes

/-!
# Texts and their bytes

The encoding of a text is read back as that text, and a byte of ASCII cuts the
code points of a string in two wherever it stands.
-/
namespace GoSite.GoStrings

/-- A text as the bytes of a Go string. -/
def encode (s : String) : List UInt8 := s.toList.flatMap String.utf8EncodeChar

def IsAscii (b : UInt8) : Prop := b.toNat < 128

instance (b : UInt8) : Decidable (IsAscii b) := inferInstanceAs (Decidable (b.toNat < 128))

/-! ## One code point -/

theorem decodeRune_eq_some_iff {bytes : List UInt8} {c : Char} :
    decodeRune bytes = some c ↔ ∃ rest, bytes = String.utf8EncodeChar c ++ rest := by
  constructor
  · intro h
    have heq := congrArg (fun b : ByteArray => b.data.toList) (ByteArray.eq_of_utf8DecodeChar?_eq_some h)
    simp only [ByteArray.data_append, Array.toList_append, List.data_toByteArray] at heq
    exact ⟨_, heq⟩
  · rintro ⟨rest, rfl⟩
    have h := ByteArray.utf8DecodeChar?_utf8EncodeChar_append (b := ⟨rest.toArray⟩) (c := c)
    rw [decodeRune, ← h]
    congr 1
    apply ByteArray.ext
    simp

theorem encodeChar_ascii {c : Char} (h : c.toNat < 128) :
    String.utf8EncodeChar c = [UInt8.ofNat c.toNat] := by
  have hsize : c.utf8Size = 1 := by
    rw [Char.utf8Size_eq_one_iff, UInt32.le_iff_toNat_le]
    exact Nat.le_of_lt_succ h
  rw [String.utf8EncodeChar_eq_singleton hsize]
  rfl

/-- Only the code points of ASCII have bytes of ASCII. -/
theorem not_isAscii_of_mem_encodeChar {c : Char} (h : 128 ≤ c.toNat) {b : UInt8}
    (hb : b ∈ String.utf8EncodeChar c) : ¬ IsAscii b := by
  have hc : ¬ c.val.toNat ≤ 127 := by
    have : 128 ≤ c.val.toNat := h
    omega
  rw [String.utf8EncodeChar] at hb
  simp only [hc, if_false] at hb
  rw [IsAscii]
  split_ifs at hb <;> simp only [List.mem_cons, List.not_mem_nil, or_false] at hb <;>
    rcases hb with rfl | rfl | rfl | rfl <;> simp <;> omega

/-- The first byte of an encoding is no continuation byte. -/
theorem head_encodeChar {c : Char} {b : UInt8} {rest : List UInt8}
    (h : String.utf8EncodeChar c = b :: rest) : b.toNat < 128 ∨ 192 ≤ b.toNat := by
  have hval : c.val.toNat = c.toNat := rfl
  have hmax : c.toNat < 0x110000 := by
    rcases c.valid with hvalid | hvalid
    · exact lt_trans hvalid (by decide)
    · exact hvalid.2
  rw [String.utf8EncodeChar] at h
  split_ifs at h <;> obtain ⟨rfl, -⟩ := List.cons.inj h <;> simp <;> omega

theorem toNat_ofNat_ascii : ∀ n < 128, (Char.ofNat n).toNat = n := by decide

theorem encodeChar_ofNat {b : UInt8} (h : IsAscii b) :
    String.utf8EncodeChar (Char.ofNat b.toNat) = [b] := by
  have htoNat : (Char.ofNat b.toNat).toNat = b.toNat := toNat_ofNat_ascii b.toNat h
  rw [encodeChar_ascii (by rw [htoNat]; exact h), htoNat]
  simp

theorem decodeRune_ascii {b : UInt8} (h : IsAscii b) (rest : List UInt8) :
    decodeRune (b :: rest) = some (Char.ofNat b.toNat) := by
  exact decodeRune_eq_some_iff.mpr ⟨rest, by rw [encodeChar_ofNat h]; rfl⟩

/-- A byte of ASCII is no part of an encoding that begins before it. -/
theorem decodeRune_append_ascii {bytes : List UInt8} (hbytes : bytes ≠ []) {b : UInt8}
    (hb : IsAscii b) (rest : List UInt8) : decodeRune (bytes ++ b :: rest) = decodeRune bytes := by
  apply Option.ext
  intro c
  rw [decodeRune_eq_some_iff, decodeRune_eq_some_iff]
  constructor
  · rintro ⟨rest', h⟩
    rcases List.append_eq_append_iff.mp h with ⟨cut, henc, hrest⟩ | ⟨cut, hbefore, -⟩
    · cases cut with
      | nil => exact ⟨[], by simpa using henc.symm⟩
      | cons d cut =>
          obtain ⟨rfl, -⟩ := List.cons.inj hrest
          have hc : c.toNat < 128 := by
            by_contra hc
            exact not_isAscii_of_mem_encodeChar (c := c) (by omega) (by simp [henc]) hb
          have hlen := congrArg List.length henc
          have hpos := List.length_pos_iff.mpr hbytes
          rw [encodeChar_ascii hc, List.length_append, List.length_cons, List.length_cons,
            List.length_nil] at hlen
          omega
    · exact ⟨cut, hbefore⟩
  · rintro ⟨rest', rfl⟩
    exact ⟨rest' ++ b :: rest, by simp⟩

theorem utf8Size_le_of_decodeRune {bytes : List UInt8} {c : Char} (h : decodeRune bytes = some c) :
    c.utf8Size ≤ bytes.length ∧ bytes.take c.utf8Size = String.utf8EncodeChar c := by
  obtain ⟨rest, rfl⟩ := decodeRune_eq_some_iff.mp h
  refine ⟨by simp, ?_⟩
  rw [← String.length_utf8EncodeChar]
  simp

/-! ## The code points of a string -/

theorem runesLoop_of_length_le {n : ℕ} {bytes : List UInt8} (h : bytes.length ≤ n) :
    runesLoop n bytes = runes bytes := by
  have hall : ∀ m n (bytes : List UInt8), bytes.length ≤ m → bytes.length ≤ n →
      runesLoop n bytes = runesLoop m bytes := by
    intro m
    induction m with
    | zero =>
        intro n bytes hm hn
        rw [List.length_eq_zero_iff.mp (Nat.le_zero.mp hm)]
        cases n <;> rfl
    | succ m ih =>
        intro n bytes hm hn
        cases bytes with
        | nil => cases n <;> rfl
        | cons b bytes =>
            cases n with
            | zero => simp at hn
            | succ n =>
                simp only [List.length_cons] at hm hn
                rw [runesLoop, runesLoop]
                cases decodeRune (b :: bytes) with
                | none => rw [ih n bytes (by omega) (by omega)]
                | some c =>
                    have hpos := c.utf8Size_pos
                    have hdrop : ((b :: bytes).drop c.utf8Size).length ≤ bytes.length := by
                      simp
                      omega
                    dsimp only
                    rw [ih n _ (by omega) (by omega)]
  exact hall _ _ _ le_rfl h

@[simp] theorem runes_nil : runes [] = [] := rfl

theorem runes_of_none {b : UInt8} {bytes : List UInt8} (h : decodeRune (b :: bytes) = none) :
    runes (b :: bytes) = ⟨Char.ofNat 0xFFFD, [b]⟩ :: runes bytes := by
  rw [runes, List.length_cons, runesLoop, h]
  rfl

theorem runes_encodeChar (c : Char) (rest : List UInt8) :
    runes (String.utf8EncodeChar c ++ rest) = ⟨c, String.utf8EncodeChar c⟩ :: runes rest := by
  have hdecode : decodeRune (String.utf8EncodeChar c ++ rest) = some c :=
    decodeRune_eq_some_iff.mpr ⟨rest, rfl⟩
  have hpos := c.utf8Size_pos
  have htake := (utf8Size_le_of_decodeRune hdecode).2
  have hdrop : (String.utf8EncodeChar c ++ rest).drop c.utf8Size = rest := by
    rw [← String.length_utf8EncodeChar]
    simp
  cases hbytes : String.utf8EncodeChar c ++ rest with
  | nil =>
      have := congrArg List.length hbytes
      simp at this
      omega
  | cons b bytes =>
      have hlen := congrArg List.length hbytes
      simp only [List.length_append, String.length_utf8EncodeChar, List.length_cons] at hlen
      rw [hbytes] at hdecode htake hdrop
      rw [runes, List.length_cons, runesLoop, hdecode]
      dsimp only
      rw [htake, hdrop, runesLoop_of_length_le (by omega)]

theorem runes_ascii {b : UInt8} (h : IsAscii b) (rest : List UInt8) :
    runes (b :: rest) = ⟨Char.ofNat b.toNat, [b]⟩ :: runes rest := by
  have hrunes := runes_encodeChar (Char.ofNat b.toNat) rest
  rwa [encodeChar_ofNat h] at hrunes

/-- Either an encoding or a byte that starts none. -/
theorem runes_induction {P : List UInt8 → Prop} (nil : P [])
    (char : ∀ c rest, P rest → P (String.utf8EncodeChar c ++ rest))
    (byte : ∀ b rest, decodeRune (b :: rest) = none → P rest → P (b :: rest))
    (bytes : List UInt8) : P bytes := by
  induction hlen : bytes.length using Nat.strong_induction_on generalizing bytes with
  | _ n ih =>
      cases bytes with
      | nil => exact nil
      | cons b rest =>
          cases hdecode : decodeRune (b :: rest) with
          | none => exact byte b rest hdecode (ih rest.length (by simp [← hlen]) rest rfl)
          | some c =>
              obtain ⟨rest', heq⟩ := decodeRune_eq_some_iff.mp hdecode
              have hpos := c.utf8Size_pos
              have hlt : rest'.length < n := by
                rw [← hlen, heq]
                simp
                omega
              rw [heq]
              exact char c rest' (ih _ hlt rest' rfl)

@[simp] theorem flatMap_runes (bytes : List UInt8) : (runes bytes).flatMap Rune.bytes = bytes := by
  induction bytes using runes_induction with
  | nil => rfl
  | char c rest ih => rw [runes_encodeChar, List.flatMap_cons, ih]
  | byte b rest h ih => rw [runes_of_none h, List.flatMap_cons, ih]; rfl

theorem runes_append_ascii (bytes : List UInt8) {b : UInt8} (hb : IsAscii b) (rest : List UInt8) :
    runes (bytes ++ b :: rest) = runes bytes ++ ⟨Char.ofNat b.toNat, [b]⟩ :: runes rest := by
  induction bytes using runes_induction with
  | nil => exact runes_ascii hb rest
  | char c before ih => rw [List.append_assoc, runes_encodeChar, runes_encodeChar, ih]; rfl
  | byte d before h ih =>
      have hnone : decodeRune (d :: (before ++ b :: rest)) = none := by
        rw [← List.cons_append, decodeRune_append_ascii (by simp) hb, h]
      rw [List.cons_append, runes_of_none hnone, runes_of_none h, ih]
      rfl

theorem mem_runes {bytes : List UInt8} {r : Rune} (h : r ∈ runes bytes) :
    r.bytes = String.utf8EncodeChar r.char ∨ r.char = Char.ofNat 0xFFFD := by
  induction bytes using runes_induction with
  | nil => simp at h
  | char c rest ih =>
      rw [runes_encodeChar] at h
      rcases List.mem_cons.mp h with rfl | h
      · exact Or.inl rfl
      · exact ih h
  | byte b rest hnone ih =>
      rw [runes_of_none hnone] at h
      rcases List.mem_cons.mp h with rfl | h
      · exact Or.inr rfl
      · exact ih h

/-! ## Texts -/

@[simp] theorem encode_ofList_nil : encode (String.ofList []) = [] := rfl

@[simp] theorem encode_append (s t : String) : encode (s ++ t) = encode s ++ encode t := by
  simp [encode]

theorem runes_flatMap_append (cs : List Char) (rest : List UInt8) :
    runes (cs.flatMap String.utf8EncodeChar ++ rest) =
      cs.map (fun c => ⟨c, String.utf8EncodeChar c⟩) ++ runes rest := by
  induction cs with
  | nil => rfl
  | cons c cs ih => rw [List.flatMap_cons, List.append_assoc, runes_encodeChar, ih]; rfl

theorem runes_encode (s : String) :
    runes (encode s) = s.toList.map fun c => ⟨c, String.utf8EncodeChar c⟩ := by
  have h := runes_flatMap_append s.toList []
  simpa [encode] using h

@[simp] theorem decode_encode (s : String) : decode (encode s) = s := by
  simp [decode, runes_encode, Function.comp_def]

/-- A code point of ASCII in the text is a byte of the string. -/
theorem mem_of_mem_decode {bytes : List UInt8} {c : Char} (hc : c.toNat < 128)
    (h : c ∈ (decode bytes).toList) : UInt8.ofNat c.toNat ∈ bytes := by
  rw [decode, String.toList_ofList] at h
  obtain ⟨r, hr, rfl⟩ := List.mem_map.mp h
  have hbytes : r.bytes = String.utf8EncodeChar r.char := by
    rcases mem_runes hr with hbytes | hchar
    · exact hbytes
    · rw [hchar] at hc
      exact absurd hc (by decide)
  rw [← flatMap_runes bytes, List.mem_flatMap]
  exact ⟨r, hr, by rw [hbytes, encodeChar_ascii hc]; exact List.mem_singleton_self _⟩

/-! ## White space around a string -/

theorem mem_takeWhile_white {rs : List Rune} {r : Rune}
    (h : r ∈ rs.takeWhile (isSpace ·.char)) : isSpace r.char = true := by
  have himp := List.mem_takeWhile_imp h
  exact himp

theorem mem_rtakeWhile_white {rs : List Rune} {r : Rune}
    (h : r ∈ rs.rtakeWhile (isSpace ·.char)) : isSpace r.char = true := by
  have himp := List.mem_rtakeWhile_imp h
  exact himp

/-- What `strings.TrimSpace` takes away is white space. -/
theorem exists_of_trimSpaceBytes (bytes : List UInt8) :
    ∃ before after, bytes = before ++ trimSpaceBytes bytes ++ after ∧
      ∀ b ∈ before ++ after, ∃ c, isSpace c = true ∧ b ∈ String.utf8EncodeChar c := by
  have hspace : ∀ r ∈ runes bytes, isSpace r.char = true →
      r.bytes = String.utf8EncodeChar r.char := by
    intro r hr hr'
    rcases mem_runes hr with h | h
    · exact h
    · rw [h] at hr'
      exact absurd hr' (by decide)
  have hsplit : runes bytes = (runes bytes).takeWhile (isSpace ·.char) ++
      (((runes bytes).dropWhile (isSpace ·.char)).rdropWhile (isSpace ·.char) ++
        ((runes bytes).dropWhile (isSpace ·.char)).rtakeWhile (isSpace ·.char)) := by
    rw [List.rdropWhile_append_rtakeWhile, List.takeWhile_append_dropWhile]
  refine ⟨((runes bytes).takeWhile (isSpace ·.char)).flatMap Rune.bytes,
    (((runes bytes).dropWhile (isSpace ·.char)).rtakeWhile (isSpace ·.char)).flatMap Rune.bytes,
    ?_, ?_⟩
  · have h := congrArg (List.flatMap Rune.bytes) hsplit
    rw [flatMap_runes, List.flatMap_append, List.flatMap_append, ← List.append_assoc] at h
    exact h
  · intro b hb
    rw [← List.flatMap_append, List.mem_flatMap] at hb
    obtain ⟨r, hr, hbr⟩ := hb
    obtain ⟨hmem, hwhite⟩ : r ∈ runes bytes ∧ isSpace r.char = true := by
      rw [List.mem_append] at hr
      rcases hr with hr | hr
      · exact ⟨(List.takeWhile_sublist _).subset hr, mem_takeWhile_white hr⟩
      · have hdrop := (List.rtakeWhile_suffix _ _).subset hr
        exact ⟨(List.dropWhile_sublist _).subset hdrop, mem_rtakeWhile_white hr⟩
    rw [hspace r hmem hwhite] at hbr
    exact ⟨r.char, hwhite, hbr⟩

theorem trimSpaceBytes_eq_self {bytes : List UInt8}
    (hhead : ¬ (runes bytes).head?.any (isSpace ·.char))
    (hlast : ¬ (runes bytes).getLast?.any (isSpace ·.char)) : trimSpaceBytes bytes = bytes := by
  have hdrop : (runes bytes).dropWhile (isSpace ·.char) = runes bytes := by
    rw [List.dropWhile_eq_self_iff]
    intro hpos
    rw [List.head?_eq_getElem?, List.getElem?_eq_getElem hpos] at hhead
    exact hhead
  have hrdrop : (runes bytes).rdropWhile (isSpace ·.char) = runes bytes := by
    rw [List.rdropWhile_eq_self_iff]
    intro hne
    simpa [List.getLast?_eq_some_getLast hne] using hlast
  rw [trimSpaceBytes, hdrop, hrdrop, flatMap_runes]

/-- A text with no white space at its ends stays as it is. -/
theorem trimSpaceBytes_encode {s : String} (hhead : ¬ s.toList.head?.any isSpace)
    (hlast : ¬ s.toList.getLast?.any isSpace) : trimSpaceBytes (encode s) = encode s := by
  refine trimSpaceBytes_eq_self ?_ ?_
  · simpa [runes_encode, Option.any_map, Function.comp_def] using hhead
  · simpa [runes_encode, Option.any_map, Function.comp_def] using hlast

/-- So does a string between two bytes of ASCII that are no white space. -/
theorem trimSpaceBytes_between {b d : UInt8} (hb : IsAscii b) (hd : IsAscii d)
    (hbs : isSpace (Char.ofNat b.toNat) = false) (hds : isSpace (Char.ofNat d.toNat) = false)
    (mid : List UInt8) : trimSpaceBytes (b :: (mid ++ [d])) = b :: (mid ++ [d]) := by
  have hruns : runes (b :: (mid ++ [d])) =
      ⟨Char.ofNat b.toNat, [b]⟩ :: (runes mid ++ [⟨Char.ofNat d.toNat, [d]⟩]) := by
    rw [runes_ascii hb, runes_append_ascii mid hd, runes_nil]
  refine trimSpaceBytes_eq_self ?_ ?_
  · simp [hruns, hbs]
  · rw [hruns, ← List.cons_append, List.getLast?_append]
    simp [hds]

end GoSite.GoStrings
