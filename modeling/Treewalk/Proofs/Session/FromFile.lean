import Treewalk.Command
import Treewalk.Proofs.Program.Pulled
import Treewalk.Proofs.Source.Decoding

/-!
# Analyzing files

A file is parsed while it is scanned, and scanned while it is read. That gives what analyzing its
text in memory gives if the file holds a text. If it does not, the parser asks on until a fault is
met, wherever it is and whatever stands in front of it, and nothing comes of the file but the fault.
-/

namespace Treewalk

set_option autoImplicit false

section Reader

variable [CharReader] (sound : CharReader.Sound)
include sound

theorem analyze_file_of_text (source : String) :
    analyzeFile (.ok source.toUTF8.data.toList) = ⟨source, analyze source⟩ := by
  rw [bytes_of_text, analyzeFile, pulls_encoded sound, analyze, parse, Feed.of_text]
  obtain ⟨reads, drained⟩ := feed_of_pulls (source.toList.map .char)
  have none := (Feed.fault_none_iff reads drained).mpr (clean_chars source.toList)
  have text := Feed.text_of_clean reads drained (clean_chars source.toList)
  rw [chars_of_chars, String.ofList_toList] at text
  generalize parseFeed (.ofPulls (source.toList.map .char)) = result at none text
  obtain ⟨parsed, feed⟩ := result
  dsimp only at none text ⊢
  rw [none, text]

theorem analyze_file_of_other {bytes : List UInt8}
    (other : ∀ source : String, source.toUTF8.data.toList ≠ bytes) :
    ∃ fault, analyzeFile (.ok bytes) = Analyzed.unreadable fault := by
  have faulty : ¬Clean (CharReader.pulls bytes) := by
    intro clean
    obtain ⟨text, rfl⟩ := encoded_of_clean sound bytes clean
    apply other (String.ofList text)
    rw [bytes_of_text, String.toList_ofList]
  obtain ⟨reads, drained⟩ := feed_of_pulls (CharReader.pulls bytes)
  rw [← Feed.fault_none_iff reads drained] at faulty
  obtain ⟨fault, met⟩ := Option.ne_none_iff_exists'.mp faulty
  refine ⟨fault, ?_⟩
  rw [analyzeFile]
  generalize parseFeed (.ofPulls (CharReader.pulls bytes)) = result at met
  obtain ⟨parsed, feed⟩ := result
  dsimp only at met ⊢
  rw [met]

end Reader

/-- With any sound reader, a file and its text in memory come to the same: the program with its
places or the errors, the warnings, and the text itself. A file that holds no text comes to a fault,
whatever stands in front of it: a session that runs it is left as it was, nothing is printed and no
warning given, and the command that runs it reports the fault alone. -/
theorem file_agrees_with_text [CharReader] (sound : CharReader.Sound) :
    (∀ source : String, analyzeFile (.ok source.toUTF8.data.toList) = ⟨source, analyze source⟩) ∧
    ∀ bytes : List UInt8, (∀ source : String, source.toUTF8.data.toList ≠ bytes) →
      ∃ fault, analyzeFile (.ok bytes) = ⟨"", ⟨[], .error (.reading fault)⟩⟩ ∧
        (∀ units session, Session.runAnalysis units (analyzeFile (.ok bytes)).analysis session =
          some (⟨#[], [], .error (.reading fault)⟩, session)) ∧
        ∀ units around path limit, around.file = .ok bytes →
          Command.runScript units around path limit = some ⟨(Failure.reading fault).exitCode,
            [.err ((Failure.reading fault).text around.coloured ⟨path, ""⟩)]⟩ := by
  refine ⟨analyze_file_of_text sound, ?_⟩
  intro bytes other
  obtain ⟨fault, unreadable⟩ := analyze_file_of_other sound other
  refine ⟨fault, unreadable, ?_, ?_⟩
  · intro units session
    rw [unreadable]
    rfl
  · intro units around path limit file
    rw [Command.runScript, file, unreadable]
    rfl

theorem file_agrees_with_text_stray_byte :
    ∃ fault, analyzeFile (.ok [0x70, 0x80]) = ⟨"", ⟨[], .error (.reading fault)⟩⟩ := by
  have other : ∀ source : String, source.toUTF8.data.toList ≠ [0x70, 0x80] := by
    intro source same
    have decoded := pulls_encoded decode_sound source.toList
    rw [← bytes_of_text, same] at decoded
    have clean := clean_chars source.toList
    rw [← decoded] at clean
    exact absurd (clean _ (List.mem_cons_of_mem _ List.mem_cons_self)) (by decide)
  obtain ⟨fault, unreadable, -⟩ := (file_agrees_with_text decode_sound).2 [0x70, 0x80] other
  exact ⟨fault, unreadable⟩

end Treewalk
