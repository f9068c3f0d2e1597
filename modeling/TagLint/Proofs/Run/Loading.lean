import TagLint.Proofs.Text.Utf8
import TagLint.Run.Verdict
/-!
# Loading a file

The bytes of a file are the encoding of one text or of none. A text loses one mark at its front and is then linted as if
the mark had never been there; bytes of no text make one finding, which tells how far they are an encoding
(`lintFile_decodes`).
-/

namespace TagLint

variable {fs : FileSystem} {p : Path} {bytes : List UInt8} {text : List Char}

theorem dropMark_of_head? (h : text.head? ≠ some byteOrderMark) : dropMark text = text := by
  cases text with
  | nil => rfl
  | cons c text => exact if_neg fun hc => h (congrArg some hc)

theorem loadSource_of_encode (h : fs.read p = .ok (Utf8.encode text)) :
    loadSource fs p = .ok (.ofList (dropMark text)) := by
  rw [loadSource, h]
  dsimp only
  rw [decodeSource, Utf8.decode_eq_ok_iff.2 rfl]
  rfl

theorem loadSource_of_decode_eq_error {n : Nat} (h : fs.read p = .ok bytes) (hn : Utf8.decode bytes = .error n) :
    loadSource fs p = .error (.io s!"File is not valid UTF-8 (invalid byte at offset {n})") := by
  rw [loadSource, h]
  dsimp only
  rw [decodeSource, hn]
  rfl

/-- The verdict on a file that has a text is that on the text. -/
theorem lintFile_of_loadSource {source : String} (h : loadSource fs p = .ok source) (rules : Registry) :
    lintFile fs rules p = .ofValidation p (validate source rules) := by
  rw [lintFile, h]

/-- A file is loaded as the text that its bytes are the encoding of, without one mark at the front; a second mark stays.
So the mark makes no difference to what is found, nor to where. If the bytes are the encoding of no text, the file fails
with a single finding about it as a whole, and this tells how many bytes from the start are the encoding of one. -/
theorem lintFile_decodes (h : fs.read p = .ok bytes) (rules : Registry) :
    (∀ text, bytes = Utf8.encode ('\uFEFF' :: text) →
      loadSource fs p = .ok (.ofList text) ∧ lintFile fs rules p = .ofValidation p (validate (.ofList text) rules)) ∧
    (∀ text, bytes = Utf8.encode text → text.head? ≠ some '\uFEFF' →
      loadSource fs p = .ok (.ofList text) ∧ lintFile fs rules p = .ofValidation p (validate (.ofList text) rules) ∧
      ∀ (fs' : FileSystem) (p' : Path), fs'.read p' = .ok (Utf8.encode ('\uFEFF' :: text)) →
        (lintFile fs' rules p').diagnostics = (lintFile fs rules p).diagnostics ∧
          (lintFile fs' rules p').passed = (lintFile fs rules p).passed) ∧
    ((∀ text, bytes ≠ Utf8.encode text) → ∃ n, Utf8.ValidUpTo bytes n ∧
      lintFile fs rules p =
        ⟨p, false, [⟨.ioFailure, none, s!"File is not valid UTF-8 (invalid byte at offset {n})", none⟩]⟩) := by
  refine ⟨?_, ?_, fun hno => ?_⟩
  · rintro text rfl
    have hload : loadSource fs p = .ok (.ofList text) := loadSource_of_encode h
    exact ⟨hload, lintFile_of_loadSource hload rules⟩
  · rintro text rfl hfirst
    have hload : loadSource fs p = .ok (.ofList text) := by rw [loadSource_of_encode h, dropMark_of_head? hfirst]
    have hlint := lintFile_of_loadSource hload rules
    refine ⟨hload, hlint, fun fs' p' h' => ?_⟩
    have hload' : loadSource fs' p' = .ok (.ofList text) := loadSource_of_encode h'
    rw [lintFile_of_loadSource hload' rules, hlint]
    exact ⟨rfl, rfl⟩
  · obtain ⟨n, hn, hvalid⟩ := Utf8.exists_decode_eq_error hno
    refine ⟨n, hvalid, ?_⟩
    rw [lintFile, loadSource_of_decode_eq_error h hn]
    rfl

/-- Of two marks one stays, and of a text that ends inside a character one byte is left. -/
theorem lintFile_decodes_marks_and_cut :
    let marked := Path.ofString "marked.html"
    let cut := Path.ofString "cut.html"
    let fs := FileSystem.ofAnswers [] [(marked, .ok [0xEF, 0xBB, 0xBF, 0xEF, 0xBB, 0xBF, 0x3C]),
      (cut, .ok [0x61, 0xE2, 0x82])]
    loadSource fs marked = .ok "\uFEFF<" ∧ Utf8.ValidUpTo [0x61, 0xE2, 0x82] 1 ∧
      lintFile fs .empty cut =
        ⟨cut, false, [⟨.ioFailure, none, "File is not valid UTF-8 (invalid byte at offset 1)", none⟩]⟩ := by
  intro marked cut fs
  have hmarked : fs.read marked = .ok [0xEF, 0xBB, 0xBF, 0xEF, 0xBB, 0xBF, 0x3C] := rfl
  have hcut : fs.read cut = .ok [0x61, 0xE2, 0x82] := rfl
  have hdecode : Utf8.decode [0x61, 0xE2, 0x82] = .error 1 := rfl
  have hone := Utf8.validUpTo_of_decode hdecode
  have hno (text : List Char) : [0x61, 0xE2, 0x82] ≠ Utf8.encode text := by
    intro htext
    rw [Utf8.decode_eq_ok_iff.2 htext] at hdecode
    cases hdecode
  obtain ⟨hload, -⟩ := (lintFile_decodes hmarked .empty).1 ['\uFEFF', '<'] rfl
  obtain ⟨n, hn, hlint⟩ := (lintFile_decodes hcut .empty).2.2 hno
  obtain rfl := hn.unique hone
  exact ⟨hload, hone, hlint⟩

end TagLint
