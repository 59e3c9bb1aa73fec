import LineScript.Disk

/-!
# LineScript.Proofs.Storage — what a disk keeps

A write puts something at a place where no directory was, so every path leads where it led before, and what was written
is found again.  Only devices give something else back.  A write that fails may have begun: then a file holds a
beginning of what was to be written.

* `Disk.node?_set_self`, `Disk.node?_set_of_ne`: a disk after one change.
* `Disk.walk_set`: what is put where no directory stands is in nobody's way.
* `Node.Rewritten`, `Disk.of_write`: all that a write can do, whether it succeeds or not.
* `Disk.readText?_of_write`: what is written is read back.
* `prefix_of_fromUTF8?`: the text in a file that was cut short is a beginning of the text that was to be written.
* `Disk.FreeOfReturns`: disks without carriage returns, and what keeps them so.
-/

namespace LineScript

/-! ### Texts as bytes -/

theorem fromUTF8?_toUTF8 (s : String) : String.fromUTF8? s.toUTF8 = some s := by
  rw [String.fromUTF8?, String.toUTF8_eq_toByteArray, dif_pos s.isValidUTF8]
  rfl

theorem toUTF8_of_fromUTF8? {contents : ByteArray} {s : String} (h : String.fromUTF8? contents = some s) :
    s.toUTF8 = contents := by
  unfold String.fromUTF8? at h
  split at h
  · cases h
    rfl
  · cases h

/-- A text whose bytes begin another text is a beginning of it. -/
theorem prefix_of_fromUTF8? {begun rest : ByteArray} {source text : String} (h : begun ++ rest = text.toUTF8)
    (hsource : String.fromUTF8? begun = some source) : source.toList <+: text.toList := by
  refine List.isPrefix_of_utf8Encode_append_eq_utf8Encode rest ?_
  rw [String.utf8Encode_toList, String.utf8Encode_toList, ← String.toUTF8_eq_toByteArray,
    ← String.toUTF8_eq_toByteArray, toUTF8_of_fromUTF8? hsource, h]

/-! ### Numbers that the system keeps -/

/-- A text is refused at one of its pieces, after the pieces before it have set the value. -/
theorem Setting.exists_refused {value value' : Nat} {pieces : List (List UInt8)} {fault : DiskFault}
    (h : rewrite value pieces = (.error fault, value')) :
    ∃ accepted refused rest, pieces = accepted ++ refused :: rest ∧ rewrite value accepted = (.ok (), value') ∧
      ofPiece refused = .error fault := by
  induction pieces generalizing value with
  | nil => cases h
  | cons piece pieces ih =>
    rw [rewrite] at h
    cases hpiece : ofPiece piece with
    | error fault' =>
      rw [hpiece] at h
      cases h
      exact ⟨[], piece, pieces, rfl, rfl, hpiece⟩
    | ok next =>
      rw [hpiece] at h
      obtain ⟨accepted, refused, rest, rfl, haccepted, hrefused⟩ := ih h
      refine ⟨piece :: accepted, refused, rest, rfl, ?_, hrefused⟩
      rw [rewrite, hpiece]
      exact haccepted

theorem Setting.return_notMem_text (value : Nat) : '\r' ∉ (text value).toList := by
  rw [text, String.toList_append, List.mem_append, not_or]
  constructor
  · intro hmem
    rw [Nat.toList_repr] at hmem
    exact absurd (Nat.isDigit_of_mem_toDigits (by decide) (by decide) hmem) (by decide)
  · decide

/-! ### Devices -/

/-- What does not keep the bytes that are written to it. -/
def Node.isDevice : Node → Bool
  | nullDevice | fullDevice | setting _ => true
  | directory | file _ => false

/-- What a write of `contents` that gives `result` leaves where `old` stood: a file with the contents or a beginning of
them, or a number with the value that the pieces of the contents have set, up to the first piece that is refused. -/
inductive Node.Rewritten (contents : ByteArray) : Option Node → Except DiskFault Unit → Node → Prop
  | whole {old : Option Node} (hold : ∀ node ∈ old, ∃ bytes, node = .file bytes) :
      Rewritten contents old (.ok ()) (.file contents)
  | cut {old : Option Node} {begun rest : ByteArray} (hold : ∀ node ∈ old, ∃ bytes, node = .file bytes)
      (h : begun ++ rest = contents) (hrest : rest ≠ .empty) :
      Rewritten contents old (.error .noSpace) (.file begun)
  | accepted {value value' : Nat} (h : Setting.rewrite value (Setting.pieces contents.data.toList) = (.ok (), value')) :
      Rewritten contents (some (.setting value)) (.ok ()) (.setting value')
  | refused {value value' : Nat} {before rest : List (List UInt8)} {piece : List UInt8} {fault : DiskFault}
      (h : Setting.pieces contents.data.toList = before ++ piece :: rest)
      (hbefore : Setting.rewrite value before = (.ok (), value')) (hpiece : Setting.ofPiece piece = .error fault) :
      Rewritten contents (some (.setting value)) (.error fault) (.setting value')

namespace Disk

variable {disk disk' : Disk} {place : Place} {node : Node} {path text : String} {result : Except DiskFault Unit}

/-- The path opens a device for writing. -/
def LeadsToDevice (disk : Disk) (path : String) : Prop :=
  ∃ place node, disk.create path = .ok place ∧ disk.node? place = some node ∧ node.isDevice = true

/-! ### One change -/

theorem lookup_filter_of_ne {q : Place} (hq : q ≠ place) (nodes : List (Place × Node)) :
    (nodes.filter fun entry => entry.1 != place).lookup q = nodes.lookup q := by
  induction nodes with
  | nil => rfl
  | cons entry nodes ih =>
    obtain ⟨at_, node⟩ := entry
    by_cases hat : at_ = place
    · subst hat
      have hne : (q == at_) = false := by simpa using hq
      rw [List.filter_cons_of_neg (by simp), ih, List.lookup_cons, hne]
    · rw [List.filter_cons_of_pos (by simpa using hat), List.lookup_cons, List.lookup_cons, ih]

@[simp] theorem node?_set_self (disk : Disk) (place : Place) (node : Node) :
    (disk.set place node).node? place = some node := by
  simp [node?, set]

theorem node?_set_of_ne {q : Place} (hq : q ≠ place) (disk : Disk) (node : Node) :
    (disk.set place node).node? q = disk.node? q := by
  have hne : (q == place) = false := by simpa using hq
  rw [node?, node?, set, List.lookup_cons, hne, lookup_filter_of_ne hq]

/-- What is opened for writing is no directory. -/
theorem of_create (h : disk.create path = .ok place) :
    disk.follow path (names path) = .ok place ∧ disk.node? place ≠ some .directory := by
  unfold create at h
  split at h
  · split at h <;> cases h
  · split at h
    · cases h
    · rename_i found hfollow
      split at h
      · cases h
      · rename_i hdir hsome
        cases h
        exact ⟨hfollow, by simpa [hsome] using hdir⟩
      · rename_i hnone
        split at h
        · cases h
        · cases h
          exact ⟨hfollow, by simp [hnone]⟩

theorem room_le (disk : Disk) (place : Place) (wanted : Nat) : disk.room place wanted ≤ wanted := by
  unfold room
  split
  · exact Nat.min_le_left _ _
  · exact Nat.le_refl _

/-- All that writing to an open place can do. -/
theorem of_fill {contents : ByteArray} (hdir : disk.node? place ≠ some .directory)
    (h : disk.fill place contents = (result, disk')) :
    (disk' = disk ∧ ∃ node, disk.node? place = some node ∧ node.isDevice = true) ∨
      ∃ node, node.Rewritten contents (disk.node? place) result ∧ disk' = disk.set place node := by
  unfold fill at h
  split at h
  · rename_i hnode
    cases h
    exact Or.inl ⟨rfl, _, hnode, rfl⟩
  · rename_i hnode
    cases h
    exact Or.inl ⟨rfl, _, hnode, rfl⟩
  · rename_i value hnode
    right
    rw [hnode]
    cases hrewrite : Setting.rewrite value (Setting.pieces contents.data.toList) with
    | mk result' value' =>
      rw [hrewrite] at h
      cases h
      refine ⟨.setting value', ?_, rfl⟩
      cases result with
      | ok => exact .accepted hrewrite
      | error fault =>
        obtain ⟨before, piece, rest, hpieces, hbefore, hpiece⟩ := Setting.exists_refused hrewrite
        exact .refused hpieces hbefore hpiece
  · rename_i hnull hfull hsetting
    right
    have hold : ∀ node ∈ disk.node? place, ∃ bytes, node = .file bytes := by
      intro node hnode
      cases node with
      | file bytes => exact ⟨bytes, rfl⟩
      | directory => exact absurd hnode hdir
      | nullDevice => exact absurd hnode hnull
      | fullDevice => exact absurd hnode hfull
      | setting value => exact absurd hnode (hsetting value)
    have hle := disk.room_le place contents.size
    cases h
    refine ⟨_, ?_, rfl⟩
    split
    · rename_i hlt
      have hsplit : contents.extract 0 (disk.room place contents.size) ++
          contents.extract (disk.room place contents.size) contents.size = contents := by
        rw [ByteArray.extract_append_extract, Nat.min_eq_left (Nat.zero_le _), Nat.max_eq_right hle,
          ByteArray.extract_zero_size]
      have hrest : contents.extract (disk.room place contents.size) contents.size ≠ .empty := by
        rw [Ne, ByteArray.extract_eq_empty_iff, Nat.min_self]
        omega
      exact .cut hold hsplit hrest
    · have hall : disk.room place contents.size = contents.size := by omega
      rw [hall, ByteArray.extract_zero_size]
      exact .whole hold

/-- All that a write can do: it leaves the disk as it was, for a path that cannot be opened or a device, or it changes
what stands at the place that was opened. -/
theorem of_write {contents : ByteArray} (h : disk.write path contents = (result, disk')) :
    (disk' = disk ∧ (result = .ok () → disk.LeadsToDevice path)) ∨
      ∃ place node, disk.create path = .ok place ∧ node.Rewritten contents (disk.node? place) result ∧
        disk' = disk.set place node := by
  unfold write at h
  cases hcreate : disk.create path with
  | error fault =>
    rw [hcreate] at h
    cases h
    exact Or.inl ⟨rfl, fun hok => nomatch hok⟩
  | ok place =>
    rw [hcreate] at h
    rcases of_fill (of_create hcreate).2 h with ⟨hsame, node, hnode, hdevice⟩ | ⟨node, hnode, hset⟩
    · exact Or.inl ⟨hsame, fun _ => ⟨place, node, hcreate, hnode, hdevice⟩⟩
    · exact Or.inr ⟨place, node, rfl, hnode, hset⟩

/-- No file that can be read as text holds a carriage return. -/
def FreeOfReturns (disk : Disk) : Prop :=
  ∀ place contents source, disk.node? place = some (.file contents) → String.fromUTF8? contents = some source →
    '\r' ∉ source.toList

theorem FreeOfReturns.set (h : disk.FreeOfReturns)
    (hfile : ∀ contents source, node = .file contents → String.fromUTF8? contents = some source →
      '\r' ∉ source.toList) (place : Place) : (disk.set place node).FreeOfReturns := by
  intro q contents source hnode hsource
  by_cases hq : q = place
  · subst hq
    rw [node?_set_self, Option.some.injEq] at hnode
    exact hfile contents source hnode hsource
  · rw [node?_set_of_ne hq] at hnode
    exact h q contents source hnode hsource

theorem FreeOfReturns.set_text (h : disk.FreeOfReturns) (htext : '\r' ∉ text.toList) (place : Place) :
    (disk.set place (.file text.toUTF8)).FreeOfReturns := by
  refine h.set (fun contents source hcontents hsource => ?_) place
  cases hcontents
  rw [fromUTF8?_toUTF8, Option.some.injEq] at hsource
  rw [← hsource]
  exact htext

/-- A write brings no carriage return to a disk, whether it succeeds or not. -/
theorem FreeOfReturns.write (h : disk.FreeOfReturns) (htext : '\r' ∉ text.toList)
    (hw : disk.write path text.toUTF8 = (result, disk')) : disk'.FreeOfReturns := by
  rcases of_write hw with ⟨rfl, -⟩ | ⟨place, node, -, hnode, rfl⟩
  · exact h
  · generalize disk.node? place = old at hnode
    cases hnode with
    | whole => exact h.set_text htext place
    | cut _ hcut =>
      refine h.set (fun contents source hcontents hsource => ?_) place
      cases hcontents
      exact fun hmem => htext ((prefix_of_fromUTF8? hcut hsource).subset hmem)
    | accepted | refused =>
      refine h.set (fun contents source hcontents => ?_) place
      cases hcontents

theorem FreeOfReturns.readText? (h : disk.FreeOfReturns) {source : String} (hr : disk.readText? path = some source) :
    '\r' ∉ source.toList := by
  unfold Disk.readText? at hr
  split at hr
  · rename_i contents hread
    unfold read at hread
    split at hread
    · cases hread
    · rename_i place _
      split at hread
      · cases hread
      · cases hread
      · rename_i hnode
        cases hread
        exact h place contents source hnode hr
      · cases hread
        have hempty : String.fromUTF8? .empty = some "" := fromUTF8?_toUTF8 ""
        rw [hempty, Option.some.injEq] at hr
        rw [← hr]
        exact List.not_mem_nil
      · cases hread
      · cases hread
        rw [fromUTF8?_toUTF8, Option.some.injEq] at hr
        rw [← hr]
        exact Setting.return_notMem_text _
  · cases hr

end Disk

end LineScript
