import RoadAudit.IdTable.File
import RoadAudit.Proofs.Numeric.BigEndian

/-! # The file of an id table

Reading accepts exactly what writing produces. Every table whose size fits the count of the header
is read back from its file, a file that is read is the file of the table it gives, and no file is
the beginning of another. -/

namespace RoadAudit
namespace IdTable

/-! ## The words of a file -/

def bodyOf (words : List UInt64) : List UInt8 := words.flatMap fun w => bigEndian 8 w.toNat

theorem length_bodyOf (words : List UInt64) : (bodyOf words).length = 8 * words.length := by
  induction words with
  | nil => rfl
  | cons w rest ih =>
    simp only [bodyOf, List.flatMap_cons, List.length_append, length_bigEndian,
      List.length_cons] at ih ⊢
    omega

theorem wordsOf_append {word rest : List UInt8} (h : word.length = 8) :
    wordsOf (word ++ rest) = UInt64.ofNat (ofBigEndian word) :: wordsOf rest := by
  match word, h with
  | [_, _, _, _, _, _, _, _], _ => rfl

theorem wordsOf_bodyOf (words : List UInt64) : wordsOf (bodyOf words) = words := by
  induction words with
  | nil => rfl
  | cons w rest ih =>
    have hw : ofBigEndian (bigEndian 8 w.toNat) = w.toNat :=
      ofBigEndian_bigEndian_of_lt (by simpa using w.toNat_lt)
    rw [bodyOf, List.flatMap_cons, wordsOf_append (length_bigEndian 8 _), hw,
      UInt64.ofNat_toNat]
    exact congrArg (w :: ·) ih

theorem bodyOf_wordsOf {n : Nat} {bytes : List UInt8} (h : bytes.length = 8 * n) :
    bodyOf (wordsOf bytes) = bytes ∧ (wordsOf bytes).length = n := by
  induction n generalizing bytes with
  | zero =>
    obtain rfl : bytes = [] := List.length_eq_zero_iff.mp h
    exact ⟨rfl, rfl⟩
  | succ n ih =>
    have hword : (bytes.take 8).length = 8 := by
      rw [List.length_take]
      omega
    have hrest : (bytes.drop 8).length = 8 * n := by
      rw [List.length_drop]
      omega
    have hvalue : (UInt64.ofNat (ofBigEndian (bytes.take 8))).toNat = ofBigEndian (bytes.take 8) := by
      have hlt := ofBigEndian_lt (bytes.take 8)
      rw [hword] at hlt
      exact UInt64.toNat_ofNat_of_lt' (by simpa using hlt)
    have hback : bigEndian 8 (ofBigEndian (bytes.take 8)) = bytes.take 8 := by
      simpa only [hword] using bigEndian_ofBigEndian (bytes.take 8)
    obtain ⟨hbody, hlength⟩ := ih hrest
    have hsplit : wordsOf bytes
        = UInt64.ofNat (ofBigEndian (bytes.take 8)) :: wordsOf (bytes.drop 8) := by
      rw [← wordsOf_append hword, List.take_append_drop]
    rw [hsplit]
    refine ⟨?_, by rw [List.length_cons, hlength]⟩
    calc bodyOf (UInt64.ofNat (ofBigEndian (bytes.take 8)) :: wordsOf (bytes.drop 8))
        = bigEndian 8 (ofBigEndian (bytes.take 8)) ++ bodyOf (wordsOf (bytes.drop 8)) := by
          rw [bodyOf, List.flatMap_cons, hvalue]
          rfl
      _ = bytes.take 8 ++ bytes.drop 8 := by rw [hback, hbody]
      _ = bytes := List.take_append_drop 8 bytes

/-! ## Writing and reading a table -/

def headerOf (t : IdTable) : List UInt8 := magic ++ layoutByte t.layout :: bigEndian 4 t.size

theorem encode_eq (t : IdTable) : encode t = headerOf t ++ bodyOf t.words.toList := rfl

theorem length_headerOf (t : IdTable) : (headerOf t).length = 9 := by
  simp [headerOf, magic]

theorem length_encode (t : IdTable) : (encode t).length = 9 + 8 * t.size := by
  rw [encode_eq, List.length_append, length_headerOf, length_bodyOf, Array.length_toList]
  rfl

theorem layoutByte_of_layoutOf? {b : UInt8} {layout : IdLayout} (h : layoutOf? b = some layout) :
    layoutByte layout = b := by
  unfold layoutOf? at h
  split at h
  case isTrue hb =>
    cases h
    exact hb.symm
  case isFalse =>
    split at h
    case isTrue hb =>
      cases h
      exact hb.symm
    case isFalse => cases h

/-- A table whose size fits four bytes is read back from its file. -/
theorem decode_encode {t : IdTable} (h : t.size < 2 ^ 32) : decode (encode t) = .ok t := by
  have hcount : ofBigEndian (bigEndian 4 t.size) = t.size :=
    ofBigEndian_bigEndian_of_lt (by simpa using h)
  have hbody : (bodyOf t.words.toList).length = 8 * t.size := by
    rw [length_bodyOf, Array.length_toList]
    rfl
  have hmagic : encode t
      = magic ++ (layoutByte t.layout :: (bigEndian 4 t.size ++ bodyOf t.words.toList)) := by
    simp [encode_eq, headerOf]
  rw [hmagic, decode, takeBytes?_append (show magic.length = 4 from rfl)]
  simp only [ne_eq, not_true_eq_false, if_false, layoutOf?_layoutByte,
    takeBytes?_append (length_bigEndian 4 t.size), hcount, hbody, wordsOf_bodyOf]

theorem of_decode {bytes : List UInt8} {t : IdTable} (h : decode bytes = .ok t) :
    t.size < 2 ^ 32 ∧ encode t = bytes := by
  unfold decode at h
  split at h
  · cases h
  next start afterMagic hstart =>
    split at h
    · cases h
    next hmagic =>
      obtain rfl := not_not.mp hmagic
      split at h
      · cases h
      next b afterLayout =>
        split at h
        · cases h
        next layout hlayout =>
          split at h
          · cases h
          next count body hcount =>
            split at h
            · cases h
            next hbody =>
              cases h
              obtain ⟨-, hbytes⟩ := takeBytes?_eq_some hstart
              obtain ⟨hwidth, hafter⟩ := takeBytes?_eq_some hcount
              obtain ⟨hwords, hsize⟩ := bodyOf_wordsOf (not_not.mp hbody)
              have hlt := ofBigEndian_lt count
              have hback := bigEndian_ofBigEndian count
              rw [hwidth] at hlt hback
              refine ⟨by simpa [size, hsize] using hlt, ?_⟩
              rw [encode_eq, headerOf, layoutByte_of_layoutOf? hlayout, hwords, size,
                List.size_toArray, hsize, hback, hbytes, hafter]
              simp

theorem decode_eq_ok_iff {bytes : List UInt8} {t : IdTable} :
    decode bytes = .ok t ↔ t.size < 2 ^ 32 ∧ encode t = bytes := by
  constructor
  · exact of_decode
  · rintro ⟨hsize, rfl⟩
    exact decode_encode hsize

theorem encode_eq_of_isPrefix {t u : IdTable} (ht : t.size < 2 ^ 32) (hu : u.size < 2 ^ 32)
    (h : encode t <+: encode u) : encode t = encode u := by
  obtain ⟨rest, hrest⟩ := h
  rw [encode_eq t, encode_eq u, List.append_assoc] at hrest
  obtain ⟨hheader, -⟩ := List.append_inj hrest (by rw [length_headerOf, length_headerOf])
  have hcount : bigEndian 4 t.size = bigEndian 4 u.size := by
    have htail := (List.append_inj hheader rfl).2
    exact (List.cons.inj htail).2
  have hsize : t.size = u.size := by
    have hread := congrArg ofBigEndian hcount
    rwa [ofBigEndian_bigEndian_of_lt (by simpa using ht),
      ofBigEndian_bigEndian_of_lt (by simpa using hu)] at hread
  have hlength : (encode t).length = (encode u).length := by
    rw [length_encode, length_encode, hsize]
  exact List.IsPrefix.eq_of_length ⟨rest, by rw [encode_eq t, List.append_assoc, hrest, encode_eq]⟩
    hlength

theorem exists_error_of_isPrefix {t : IdTable} {bytes : List UInt8} (ht : t.size < 2 ^ 32)
    (h : bytes <+: encode t) (hne : bytes ≠ encode t) : ∃ e, decode bytes = .error e := by
  cases hread : decode bytes with
  | error e => exact ⟨e, rfl⟩
  | ok u =>
    obtain ⟨hu, rfl⟩ := of_decode hread
    exact absurd (encode_eq_of_isPrefix hu ht h) hne

/-! ## Tables that can come about -/

/-- The tables that records and files give. A record's id has a successor of 32 bits, since that
is what the count of words becomes. -/
inductive Reachable : IdTable → Prop where
  | empty (layout : IdLayout) : Reachable (empty layout)
  | add {t next : IdTable} {id : Nat} {osmId : UInt64} {noExit : Bool} (ht : Reachable t)
      (hid : id + 1 < 2 ^ 32) (hadd : t.add id osmId noExit = .ok next) : Reachable next
  | load {bytes : List UInt8} {t : IdTable} (hload : decode bytes = .ok t) : Reachable t

theorem size_of_add {t next : IdTable} {id : Nat} {osmId : UInt64} {noExit : Bool}
    (h : t.add id osmId noExit = .ok next) : next.size = max t.size (id + 1) := by
  unfold add at h
  split at h
  · cases h
  · split at h
    · cases h
      exact size_writeWord t.words id _
    · cases h

theorem Reachable.size_lt {t : IdTable} (h : Reachable t) : t.size < 2 ^ 32 := by
  induction h with
  | empty layout => exact Nat.two_pow_pos 32
  | add _ hid hadd ih =>
    rw [size_of_add hadd]
    exact max_lt ih hid
  | load hload => exact (of_decode hload).1

/-- Files are exact in both directions. A table that records and files give is read back from its
file with the same layout, size and answers. What can be read is just the files of tables, each of
them a layout and as many words, of whatever bits, as its count says; the table that is read has the
same file again. What begins with a file or begins one, and is not that file itself, cannot be
read. -/
theorem decode_exact :
    (∀ t, Reachable t → ∃ loaded, decode (encode t) = .ok loaded ∧ loaded.layout = t.layout ∧
      loaded.size = t.size ∧
      ∀ id, loaded.osmId? id = t.osmId? id ∧ loaded.noExit id = t.noExit id) ∧
    (∀ bytes, (∃ t, decode bytes = .ok t) ↔ ∃ t : IdTable, t.size < 2 ^ 32 ∧ encode t = bytes) ∧
    (∀ bytes t, decode bytes = .ok t → encode t = bytes) ∧
    (∀ t : IdTable, t.size < 2 ^ 32 → ∀ bytes, bytes ≠ encode t →
      bytes <+: encode t ∨ encode t <+: bytes → ∃ e, decode bytes = .error e) := by
  refine ⟨fun t ht => ?_, fun bytes => ?_, fun bytes t h => (of_decode h).2, ?_⟩
  · exact ⟨t, decode_encode ht.size_lt, rfl, rfl, fun id => ⟨rfl, rfl⟩⟩
  · exact exists_congr fun t => decode_eq_ok_iff
  · intro t hsize bytes hne hprefix
    cases h : decode bytes with
    | error e => exact ⟨e, rfl⟩
    | ok u =>
      obtain ⟨hu, rfl⟩ := of_decode h
      rcases hprefix with hprefix | hprefix
      · exact absurd (encode_eq_of_isPrefix hu hsize hprefix) hne
      · exact absurd (encode_eq_of_isPrefix hsize hu hprefix).symm hne

end IdTable
end RoadAudit
