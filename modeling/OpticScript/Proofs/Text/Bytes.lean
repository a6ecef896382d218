import OpticScript.Proofs.Lexer.Lines

/-!
# The bytes of a text

The bytes of a text are cut at line feeds first, and what is between two of them is decoded
and cut at the other line ends. That gives the lines of the text (`Piece.ofBytes_utf8`) : no
character but a line feed has the byte of one (`lineFeed_notMem_utf8`), so no character is
cut into two.

Bytes that are no text (`Undecodable`) are one piece between the lines before them and what
is read of the bytes after them (`Piece.ofBytes_undecodable`).
-/

namespace OpticScript

open Text

/-- The bytes of some characters. -/
abbrev utf8 (text : List Char) : List UInt8 := text.flatMap String.utf8EncodeChar

theorem utf8_eq (text : String) : text.toUTF8.data.toList = utf8 text.toList := by
  have hbytes : text.toByteArray = (utf8 text.toList).toByteArray := by
    rw [← List.utf8Encode, ← String.toByteArray_ofList, String.ofList_toList]
  rw [String.toUTF8, hbytes, List.data_toByteArray]

/-- A line feed is one byte. -/
theorem utf8_lineFeed (before after : List Char) :
    utf8 (before ++ '\n' :: after) = utf8 before ++ 0x0a :: utf8 after := by
  rw [utf8, List.flatMap_append, List.flatMap_cons]
  rfl

theorem lineFeed_notMem_utf8EncodeChar {c : Char} (hc : c ≠ '\n') :
    0x0a ∉ String.utf8EncodeChar c := by
  have hv : c.val.toNat ≠ 10 := fun hv => hc (Char.ext (UInt32.toNat_inj.1 hv))
  have hne : ∀ n, n % 256 ≠ 10 → 0x0a ≠ UInt8.ofNat n := fun n hn heq => hn <| by
    simpa using (congrArg UInt8.toNat heq).symm
  have hbig : ∀ n, 128 ≤ n → n < 256 → 0x0a ≠ UInt8.ofNat n := fun n _ _ => hne n (by omega)
  unfold String.utf8EncodeChar
  dsimp only
  split_ifs <;> simp only [List.mem_cons, List.not_mem_nil, or_false, not_or]
  · exact hne _ (by omega)
  · exact ⟨hbig _ (by omega) (by omega), hbig _ (by omega) (by omega)⟩
  · exact ⟨hbig _ (by omega) (by omega), hbig _ (by omega) (by omega), hbig _ (by omega) (by omega)⟩
  · exact ⟨hbig _ (by omega) (by omega), hbig _ (by omega) (by omega), hbig _ (by omega) (by omega),
      hbig _ (by omega) (by omega)⟩

/-- A text without line feeds has no byte of one. -/
theorem lineFeed_notMem_utf8 {text : List Char} (h : '\n' ∉ text) : 0x0a ∉ utf8 text := by
  rw [List.mem_flatMap]
  rintro ⟨c, hc, hbyte⟩
  exact lineFeed_notMem_utf8EncodeChar (by rintro rfl; exact h hc) hbyte

section

variable {bytes : List UInt8}

theorem chunks_of_notMem (h : 0x0a ∉ bytes) (hne : bytes ≠ []) : chunks bytes = [bytes] := by
  induction bytes with
  | nil => exact absurd rfl hne
  | cons b bytes ih =>
    obtain ⟨hb, h⟩ := not_or.1 (mt List.mem_cons.2 h)
    rw [chunks, if_neg (Ne.symm hb)]
    rcases eq_or_ne bytes [] with rfl | hne
    · rfl
    · rw [ih h hne]

theorem chunks_append (h : 0x0a ∉ bytes) (rest : List UInt8) :
    chunks (bytes ++ 0x0a :: rest) = (bytes ++ [0x0a]) :: chunks rest := by
  induction bytes with
  | nil => simp [chunks]
  | cons b bytes ih =>
    obtain ⟨hb, h⟩ := not_or.1 (mt List.mem_cons.2 h)
    rw [List.cons_append, chunks, if_neg (Ne.symm hb), ih h]
    rfl

theorem chunks_ne_nil (h : bytes ≠ []) : chunks bytes ≠ [] := by
  obtain ⟨b, bytes, rfl⟩ := List.exists_cons_of_ne_nil h
  rw [chunks]
  split
  · exact List.cons_ne_nil _ _
  · split <;> exact List.cons_ne_nil _ _

/-- No chunk goes on after a line feed. -/
theorem chunks_append_of_getLast (h : ∀ b ∈ bytes.getLast?, b = 0x0a) (rest : List UInt8) :
    chunks (bytes ++ rest) = chunks bytes ++ chunks rest := by
  induction bytes with
  | nil => rfl
  | cons b bytes ih =>
    rcases eq_or_ne bytes [] with rfl | hne
    · obtain rfl : b = 0x0a := h b rfl
      simp [chunks]
    · have hlast : ∀ last ∈ bytes.getLast?, last = 0x0a := by
        rwa [List.getLast?_cons_of_ne_nil hne] at h
      obtain ⟨chunk, more, hchunks⟩ := List.exists_cons_of_ne_nil (chunks_ne_nil hne)
      rw [List.cons_append, chunks, chunks, ih hlast, hchunks]
      split <;> rfl

end

namespace Piece

/-- The bytes of a text are decoded to it. -/
theorem ofChunk_utf8 (text : List Char) : ofChunk (utf8 text) = (lines text).map line := by
  have hbytes : ByteArray.mk (utf8 text).toArray = (String.ofList text).toByteArray := by
    rw [String.toByteArray_ofList, List.utf8Encode]
    ext1
    simp
  have hdecoded : String.fromUTF8? (ByteArray.mk (utf8 text).toArray) =
      some (String.ofList text) := by
    rw [hbytes, String.fromUTF8?, dif_pos (String.ofList text).isValidUTF8]
    rfl
  rw [ofChunk, hdecoded]
  exact congrArg (fun text => (lines text).map line) String.toList_ofList

/-- The bytes of a text are read as its lines. -/
theorem ofBytes_utf8 (text : List Char) : ofBytes (utf8 text) = (lines text).map line := by
  -- by induction on the text behind the last line feed so far
  suffices h : ∀ before, '\n' ∉ before →
      ofBytes (utf8 (before ++ text)) = (lines (before ++ text)).map line from h [] List.not_mem_nil
  induction text with
  | nil =>
    intro before hbefore
    rw [List.append_nil]
    rcases eq_or_ne before [] with rfl | hne
    · rfl
    · obtain ⟨c, hc⟩ := List.exists_mem_of_ne_nil before hne
      have hbytes : utf8 before ≠ [] := fun hnil =>
        String.utf8EncodeChar_ne_nil (List.flatMap_eq_nil_iff.1 hnil c hc)
      rw [ofBytes, chunks_of_notMem (lineFeed_notMem_utf8 hbefore) hbytes, List.flatMap_singleton,
        ofChunk_utf8]
  | cons c text ih =>
    intro before hbefore
    rcases eq_or_ne c '\n' with rfl | hc
    · have hline : utf8 before ++ [0x0a] = utf8 (before ++ ['\n']) := (utf8_lineFeed before []).symm
      have hlines : lines (before ++ '\n' :: text) = lines (before ++ ['\n']) ++ lines text := by
        rw [← lines_append (by simp), List.append_assoc]
        rfl
      rw [utf8_lineFeed, ofBytes, chunks_append (lineFeed_notMem_utf8 hbefore), hline,
        List.flatMap_cons, ofChunk_utf8, hlines, List.map_append]
      exact congrArg _ (ih [] List.not_mem_nil)
    · have happ : before ++ c :: text = before ++ [c] ++ text := by simp
      rw [happ]
      exact ih _ (by simpa using ⟨hbefore, hc.symm⟩)

end Piece

/-! ## Bytes that are no text -/

/-- Bytes that are no text, up to a line feed or to the end, with the bytes after them. -/
structure Undecodable (chunk rest : List UInt8) : Prop where
  no_text : ∀ text : String, text.toUTF8.data.toList ≠ chunk
  one_line : 0x0a ∉ chunk.dropLast
  ended : chunk.getLast? = some 0x0a ∨ rest = []

section

variable {chunk rest : List UInt8}

theorem Undecodable.chunks_eq (h : Undecodable chunk rest) :
    chunks (chunk ++ rest) = chunk :: chunks rest := by
  rcases List.eq_nil_or_concat chunk with rfl | ⟨before, b, rfl⟩
  · exact absurd rfl (h.no_text "")
  · rw [List.concat_eq_append] at h ⊢
    have hbefore : 0x0a ∉ before := by simpa using h.one_line
    rcases eq_or_ne b 0x0a with rfl | hb
    · rw [List.append_assoc]
      exact chunks_append hbefore rest
    · obtain rfl : rest = [] := h.ended.resolve_left (by simpa using hb)
      rw [List.append_nil]
      exact chunks_of_notMem (by simpa using ⟨hbefore, hb.symm⟩) (by simp)

/-- Bytes are no text if and only if they are not decoded. -/
theorem no_text_iff : (∀ text : String, text.toUTF8.data.toList ≠ chunk) ↔
    String.fromUTF8? (ByteArray.mk chunk.toArray) = none := by
  constructor
  · intro h
    rw [String.fromUTF8?, dif_neg]
    intro hvalid
    exact h (String.fromUTF8 (ByteArray.mk chunk.toArray) hvalid) (by simp [String.fromUTF8])
  · rintro h text rfl
    have hvalid : (ByteArray.mk text.toUTF8.data).IsValidUTF8 := text.isValidUTF8
    rw [Array.toArray_toList, String.fromUTF8?, dif_pos hvalid] at h
    simp at h

theorem Undecodable.ofChunk_eq (h : Undecodable chunk rest) :
    Piece.ofChunk chunk = [.undecodable] := by
  rw [Piece.ofChunk, no_text_iff.1 h.no_text]

/-- Bytes that are no text hide nothing of the text before them. -/
theorem Piece.ofBytes_undecodable {text : List Char} (htext : ∀ c ∈ text.getLast?, c = '\n')
    (h : Undecodable chunk rest) :
    ofBytes (utf8 text ++ (chunk ++ rest)) =
      (Text.lines text).map line ++ .undecodable :: ofBytes rest := by
  have hbytes : ∀ b ∈ (utf8 text).getLast?, b = 0x0a := by
    rcases List.eq_nil_or_concat text with rfl | ⟨before, c, rfl⟩
    · simp
    · obtain rfl : c = '\n' := htext c (by simp)
      rw [List.concat_eq_append, utf8_lineFeed]
      simp
  rw [ofBytes, chunks_append_of_getLast hbytes, List.flatMap_append, ← ofBytes, ofBytes_utf8,
    h.chunks_eq, List.flatMap_cons, h.ofChunk_eq]
  rfl

end

/-- A script that is read from the bytes of a text is the script of the text. -/
theorem Source.ofBytes_utf8 (name text : String) (tab : TabStop) :
    Source.ofBytes name text.toUTF8.data.toList tab = Source.ofText name text tab := by
  rw [Source.ofBytes, Source.ofText, utf8_eq, Piece.ofBytes_utf8, Piece.ofText]

end OpticScript
