import StripSequencer.FileTree
import StripSequencer.Proofs.CborReading
import StripSequencer.Proofs.Tokens

/-!
# `StripSequencer.Proofs.FileWrites` — files are read back as they were written

A path is resolved component by component, and only a directory can be left. Writing a file takes no directory away, so
the path leads to the same place afterwards, where the content now stands. A file in a directory that exists can be
written: its path is the directory's path, cleaned, with the name behind it, and cleaning a path that leads somewhere
does not change where it leads.

## Contents
- `Path.components_append`, `Path.components_joined`: paths and their components.
- `FileTree.descend_eq_ok_iff`, `FileTree.resolve_eq_ok_iff`, `FileTree.write_eq_ok_iff`: when a path leads to a place,
  and when a file is written there.
- `FileTree.read_write`: the content of a file that was written.
- `FileTree.follow_cleaned`, `FileTree.resolve_join`: a name in a directory; `FileTree.exists_write_join`.
-/

namespace StripSequencer

open Cbor (bind_eq_ok)

/-! ## Components -/

namespace Path

theorem of_mem_component {path part : Text} {g : Glyph} (h : part ∈ components path) (hg : g ∈ part) :
    g ∈ path ∧ g ≠ slash := by
  obtain ⟨hmem, hsep⟩ := mem_of_mem_segments h hg
  exact ⟨hmem, of_decide_eq_false hsep⟩

/-- A slash parts the components before it from those after it. -/
theorem components_append (front back : Text) :
    components (front ++ slash :: back) = components front ++ components back := by
  have hsep : decide (slash = slash) = true := by decide
  exact segments_append front hsep back

theorem components_of_not_mem {name : Text} (h : slash ∉ name) : components name = [name] := by
  apply segments_of_forall_not
  intro g hg
  apply decide_eq_false
  rintro rfl
  exact h hg

/-- Components that are joined by slashes are the components of the whole. -/
theorem components_joined {parts : List Text} (hne : parts ≠ []) (h : ∀ part ∈ parts, slash ∉ part) :
    components (joined parts) = parts := by
  apply segments_intercalate
  · exact hne
  · intro part hpart g hg
    apply decide_eq_false
    rintro rfl
    exact h part hpart hg
  · decide

theorem components_nil : components [] = [[]] := rfl

theorem joined_ne_nil {parts : List Text} (hne : parts ≠ []) (h : ∀ part ∈ parts, part ≠ [] ∧ slash ∉ part) :
    joined parts ≠ [] := by
  intro hempty
  have hcomponents := components_joined hne fun part hpart => (h part hpart).2
  rw [hempty, components_nil] at hcomponents
  exact (h [] (hcomponents ▸ List.mem_cons_self)).1 rfl

theorem isAbsolute_iff {path : Text} : isAbsolute path = true ↔ path.head? = some slash := decide_eq_true_iff

theorem nil_mem_components_of_isAbsolute {path : Text} (h : isAbsolute path = true) : [] ∈ components path := by
  obtain ⟨rest, rfl⟩ := List.head?_eq_some_iff.mp (isAbsolute_iff.mp h)
  have hcomponents := components_append [] rest
  rw [List.nil_append, components_nil] at hcomponents
  rw [hcomponents]
  exact List.mem_append_left _ List.mem_cons_self

/-- A path in a directory is absolute if the directory's is. -/
theorem isAbsolute_append {directory : Text} (h : directory ≠ []) (rest : Text) :
    isAbsolute (directory ++ rest) = isAbsolute directory := by
  obtain ⟨g, directory, rfl⟩ := List.exists_cons_of_ne_nil h
  rfl

/-- The name of a file, as it stands in a directory. -/
structure IsName (name : Text) : Prop where
  ne_nil : name ≠ []
  ne_here : name ≠ here
  ne_above : name ≠ above
  no_slash : slash ∉ name
  no_zero : .char (Char.ofNat 0) ∉ name

end Path

namespace FileTree

open StripSequencer.Path

/-! ## Places -/

/-- Where a component leads from a directory. -/
def beyond (place : List Text) (component : Text) : List Text :=
  if component = [] ∨ component = here then place
  else if component = above then place.dropLast
  else place ++ [component]

theorem beyond_name {place : List Text} {name : Text} (hempty : name ≠ []) (hhere : name ≠ here)
    (habove : name ≠ above) : beyond place name = place ++ [name] := by
  simp [beyond, hempty, hhere, habove]

variable {t : FileTree} {path : Text} {place next : List Text}

theorem descend_eq_ok_iff {component : Text} :
    t.descend place component = .ok next ↔ t.nodeAt? place = some .directory ∧ next = beyond place component := by
  unfold descend
  split
  · next hnode => simp [hnode]
  · next hnode => simp [hnode]
  · next hnode =>
    unfold beyond
    split
    · simp [hnode, eq_comm]
    · split <;> simp [hnode, eq_comm]

/-- Where a path starts. -/
def start (t : FileTree) (path : Text) : List Text := if isAbsolute path then [] else t.current

theorem resolve_eq_ok_iff :
    t.resolve path = .ok place ↔ path ≠ [] ∧ .char (Char.ofNat 0) ∉ path
      ∧ (components path).foldlM t.descend (t.start path) = .ok place := by
  unfold resolve
  by_cases hempty : path = []
  · simp [hempty]
  · by_cases hzero : .char (Char.ofNat 0) ∈ path
    · simp [hempty, hzero]
    · simp [hempty, hzero, start]

/-- A file is written where a path leads to something that is no directory, inside of one. -/
theorem write_eq_ok_iff {t' : FileTree} {content : List UInt8} :
    t.write path content = .ok t' ↔ ∃ place, t.resolve path = .ok place ∧ t.nodeAt? place ≠ some .directory
      ∧ t.nodeAt? place.dropLast = some .directory ∧ t' = { t with nodes := (place, .file content) :: t.nodes } := by
  unfold write
  constructor
  · intro h
    obtain ⟨place, hplace, h⟩ := bind_eq_ok.mp h
    split at h
    · cases h
    · next hfile =>
      split at h
      · next hparent =>
        cases h
        exact ⟨place, hplace, hfile, hparent, rfl⟩
      · cases h
  · rintro ⟨place, hplace, hfile, hparent, rfl⟩
    rw [hplace]
    simp [bind, Except.bind, hparent]

/-! ## Reading what was written -/

/-- A path leads to the same place in every tree that has the directories on its way. -/
theorem foldlM_descend_of_directories {t' : FileTree} {parts : List Text}
    (hdirectories : ∀ p, t.nodeAt? p = some .directory → t'.nodeAt? p = some .directory)
    (h : parts.foldlM t.descend place = .ok next) : parts.foldlM t'.descend place = .ok next := by
  induction parts generalizing place with
  | nil => exact h
  | cons part parts ih =>
    rw [List.foldlM_cons] at h ⊢
    obtain ⟨mid, hmid, hrest⟩ := bind_eq_ok.mp h
    obtain ⟨hplace, rfl⟩ := descend_eq_ok_iff.mp hmid
    rw [descend_eq_ok_iff.mpr ⟨hdirectories place hplace, rfl⟩]
    exact ih hrest

/-- Writing a file takes no directory away. -/
theorem directory_of_written {file : List Text} (hfile : t.nodeAt? file ≠ some .directory) (content : List UInt8)
    (h : t.nodeAt? place = some .directory) :
    nodeAt? { t with nodes := (file, .file content) :: t.nodes } place = some .directory := by
  have hother : (place == file) = false := by
    apply beq_false_of_ne
    rintro rfl
    exact hfile h
  unfold nodeAt? at h ⊢
  rw [List.lookup_cons, hother]
  cases hlookup : t.nodes.lookup place with
  | some node =>
    rw [hlookup] at h
    exact h
  | none =>
    -- a directory without a node of its own is there because something stands below it
    rw [hlookup] at h
    dsimp only at h
    split at h
    · next hbelow =>
      apply if_pos
      rw [List.any_cons, Bool.or_left_comm, hbelow, Bool.or_true]
    · cases h

/-- **A file is read back as it was written.** -/
theorem read_write {t' : FileTree} {content : List UInt8} (h : t.write path content = .ok t') :
    t'.read path = .ok content := by
  obtain ⟨place, hresolve, hfile, -, rfl⟩ := write_eq_ok_iff.mp h
  obtain ⟨hne, hzero, hfold⟩ := resolve_eq_ok_iff.mp hresolve
  have hplace : resolve { t with nodes := (place, .file content) :: t.nodes } path = .ok place := by
    refine resolve_eq_ok_iff.mpr ⟨hne, hzero, ?_⟩
    exact foldlM_descend_of_directories (fun p => directory_of_written hfile content) hfold
  have hnode : nodeAt? { t with nodes := (place, .file content) :: t.nodes } place = some (.file content) := by
    unfold nodeAt?
    rw [List.lookup_cons_self]
  unfold read
  rw [hplace]
  simp [bind, Except.bind, hnode]

/-! ## Cleaned paths -/

/-- Cleaning keeps neither empty components nor those that lead nowhere, and adds none but `..`. -/
theorem of_mem_cleanStep {rooted : Bool} {seen : List Text} {component part : Text}
    (h : part ∈ cleanStep rooted seen component) : part ∈ seen ∨ part = component ∧ part ≠ [] ∧ part ≠ here := by
  unfold cleanStep at h
  split at h
  · exact .inl h
  · next hkept =>
    rw [not_or] at hkept
    split at h
    · next habove =>
      split at h
      · split at h
        · cases h
        · rw [List.mem_singleton] at h
          exact .inr ⟨h.trans habove.symm, by rw [h]; decide⟩
      · split at h
        · rcases List.mem_cons.mp h with rfl | h
          · exact .inr ⟨habove.symm, by decide⟩
          · exact .inl h
        · exact .inl (List.mem_cons_of_mem _ h)
    · rcases List.mem_cons.mp h with rfl | h
      · exact .inr ⟨rfl, hkept⟩
      · exact .inl h

theorem of_mem_cleaned {rooted : Bool} {parts seen : List Text} {part : Text}
    (h : part ∈ parts.foldl (cleanStep rooted) seen) : part ∈ seen ∨ part ∈ parts ∧ part ≠ [] ∧ part ≠ here := by
  induction parts generalizing seen with
  | nil => exact .inl h
  | cons component parts ih =>
    rcases ih h with h | ⟨hmem, hkept⟩
    · rcases of_mem_cleanStep h with h | ⟨rfl, hkept⟩
      · exact .inl h
      · exact .inr ⟨List.mem_cons_self, hkept⟩
    · exact .inr ⟨List.mem_cons_of_mem _ hmem, hkept⟩

/-- One component more leads on from where the components kept so far lead. What `..` takes back is the name of the
directory it leaves. -/
theorem follow_cleanStep {rooted : Bool} {origin seen : List Text} {component : Text}
    (hrooted : rooted = true → origin = []) (hseen : ∀ part ∈ seen, part ≠ [] ∧ part ≠ here)
    (hplace : seen.reverse.foldlM t.descend origin = .ok place) (h : t.descend place component = .ok next) :
    (cleanStep rooted seen component).reverse.foldlM t.descend origin = .ok next := by
  have hpush : (component :: seen).reverse.foldlM t.descend origin = .ok next := by
    rw [List.reverse_cons, List.foldlM_append]
    exact bind_eq_ok.mpr ⟨place, hplace, bind_eq_ok.mpr ⟨next, h, rfl⟩⟩
  obtain ⟨-, hnext⟩ := descend_eq_ok_iff.mp h
  unfold cleanStep
  split
  · next hstay => rw [hplace, hnext, beyond, if_pos hstay]
  · next hmove =>
    split
    · next habove =>
      subst habove
      rw [beyond, if_neg hmove, if_pos rfl] at hnext
      split
      · split
        · next hroot =>
          cases hplace
          rw [hnext, hrooted hroot]
          rfl
        · exact hpush
      · next last before =>
        split
        · next hlast =>
          exact hpush
        · next hlast =>
          rw [List.reverse_cons, List.foldlM_append] at hplace
          obtain ⟨mid, hmid, hplace⟩ := bind_eq_ok.mp hplace
          obtain ⟨_, hlast', hplace⟩ := bind_eq_ok.mp hplace
          cases hplace
          obtain ⟨hempty, hhere⟩ := hseen last List.mem_cons_self
          obtain ⟨-, rfl⟩ := descend_eq_ok_iff.mp hlast'
          rw [hmid, hnext, beyond_name hempty hhere hlast, List.dropLast_concat]
    · exact hpush

/-- **Cleaning does not change where components lead**, if they lead somewhere. The induction is on the components
that are left; `seen` are those that are kept of the ones before, last first. -/
theorem follow_cleaned {rooted : Bool} {origin parts seen : List Text} (hrooted : rooted = true → origin = [])
    (hseen : ∀ part ∈ seen, part ≠ [] ∧ part ≠ here) (hplace : seen.reverse.foldlM t.descend origin = .ok place)
    (h : parts.foldlM t.descend place = .ok next) :
    (parts.foldl (cleanStep rooted) seen).reverse.foldlM t.descend origin = .ok next := by
  induction parts generalizing seen place with
  | nil =>
    cases h
    exact hplace
  | cons component parts ih =>
    rw [List.foldlM_cons] at h
    obtain ⟨mid, hmid, hrest⟩ := bind_eq_ok.mp h
    refine ih ?_ (follow_cleanStep hrooted hseen hplace hmid) hrest
    intro part hpart
    rcases of_mem_cleanStep hpart with hpart | ⟨-, hkept⟩
    · exact hseen part hpart
    · exact hkept

/-! ## Names in a directory -/

/-- The path that is made of components leads where they lead. -/
theorem resolve_joined {parts : List Text} (rooted : Bool) (hne : parts ≠ [])
    (hparts : ∀ part ∈ parts, part ≠ [] ∧ slash ∉ part ∧ .char (Char.ofNat 0) ∉ part)
    (h : parts.foldlM t.descend (if rooted then [] else t.current) = .ok next) :
    t.resolve (if rooted then slash :: joined parts else joined parts) = .ok next := by
  have hcomponents := components_joined hne fun part hpart => (hparts part hpart).2.1
  have hzero : .char (Char.ofNat 0) ∉ joined parts := by
    intro hmem
    rcases mem_intercalate hmem with ⟨part, hpart, hmem⟩ | hslash
    · exact (hparts part hpart).2.2 hmem
    · exact absurd hslash (by decide)
  cases rooted with
  | true =>
    have hroot : t.nodeAt? [] = some .directory := by
      obtain ⟨part, rest, rfl⟩ := List.exists_cons_of_ne_nil hne
      rw [List.foldlM_cons] at h
      obtain ⟨mid, hmid, -⟩ := bind_eq_ok.mp h
      exact (descend_eq_ok_iff.mp hmid).1
    have hslash : components (slash :: joined parts) = [] :: parts := by
      have hsplit := components_append [] (joined parts)
      rwa [List.nil_append, hcomponents, components_nil] at hsplit
    have habsolute : isAbsolute (slash :: joined parts) = true := isAbsolute_iff.mpr rfl
    rw [if_pos rfl]
    refine resolve_eq_ok_iff.mpr ⟨List.cons_ne_nil _ _, ?_, ?_⟩
    · intro hmem
      rcases List.mem_cons.mp hmem with hslash | hmem
      · exact absurd hslash (by decide)
      · exact hzero hmem
    · rw [hslash, start, habsolute, List.foldlM_cons]
      exact bind_eq_ok.mpr ⟨[], descend_eq_ok_iff.mpr ⟨hroot, rfl⟩, h⟩
  | false =>
    rw [if_neg Bool.false_ne_true]
    have hrelative : isAbsolute (joined parts) = false := by
      apply Bool.eq_false_of_not_eq_true
      intro habsolute
      have hempty := nil_mem_components_of_isAbsolute habsolute
      rw [hcomponents] at hempty
      exact (hparts [] hempty).1 rfl
    refine resolve_eq_ok_iff.mpr ⟨?_, hzero, ?_⟩
    · exact joined_ne_nil hne fun part hpart => ⟨(hparts part hpart).1, (hparts part hpart).2.1⟩
    · rw [hcomponents, start, hrelative]
      exact h

/-- **A name in a directory** stands below the directory's place. -/
theorem resolve_join {directory name : Text} (hname : IsName name) (h : t.resolve directory = .ok place)
    (hdirectory : t.nodeAt? place = some .directory) : t.resolve (join directory name) = .ok (place ++ [name]) := by
  obtain ⟨hne, hzero, hfold⟩ := resolve_eq_ok_iff.mp h
  let kept := (components directory).foldl (cleanStep (isAbsolute directory)) []
  have hparts : (components (directory ++ slash :: name)).foldl (cleanStep (isAbsolute directory)) [] = name :: kept := by
    rw [components_append, components_of_not_mem hname.no_slash, List.foldl_append]
    simp [kept, cleanStep, hname.ne_nil, hname.ne_here, hname.ne_above]
  have hnames : ∀ part ∈ (name :: kept).reverse, part ≠ [] ∧ slash ∉ part ∧ .char (Char.ofNat 0) ∉ part := by
    intro part hpart
    rcases List.mem_cons.mp (List.mem_reverse.mp hpart) with rfl | hpart
    · exact ⟨hname.ne_nil, hname.no_slash, hname.no_zero⟩
    · rcases of_mem_cleaned hpart with hpart | ⟨hpart, hempty, -⟩
      · cases hpart
      · exact ⟨hempty, fun hslash => (of_mem_component hpart hslash).2 rfl,
          fun hchar => hzero (of_mem_component hpart hchar).1⟩
  have hjoin : join directory name
      = if isAbsolute directory then slash :: joined (name :: kept).reverse else joined (name :: kept).reverse := by
    have hbody := joined_ne_nil (by simp) fun part hpart => ⟨(hnames part hpart).1, (hnames part hpart).2.1⟩
    unfold join clean
    simp only [hne, hname.ne_nil, if_false, isAbsolute_append hne, hparts, hbody]
  rw [hjoin]
  apply resolve_joined
  · simp
  · exact hnames
  · have hkept : kept.reverse.foldlM t.descend (t.start directory) = .ok place :=
      follow_cleaned (by intro hrooted; simp [start, hrooted]) (by simp) rfl hfold
    rw [List.reverse_cons, List.foldlM_append]
    refine bind_eq_ok.mpr ⟨place, hkept, bind_eq_ok.mpr ⟨_, descend_eq_ok_iff.mpr ⟨hdirectory, rfl⟩, ?_⟩⟩
    rw [beyond_name hname.ne_nil hname.ne_here hname.ne_above]
    rfl

/-- A file can be written into a directory that is there, under a name that no other directory has. -/
theorem exists_write_join {directory name : Text} (hname : IsName name) (h : t.resolve directory = .ok place)
    (hdirectory : t.nodeAt? place = some .directory) (hfree : t.nodeAt? (place ++ [name]) ≠ some .directory)
    (content : List UInt8) : ∃ t', t.write (join directory name) content = .ok t' :=
  ⟨_, write_eq_ok_iff.mpr ⟨_, resolve_join hname h hdirectory, hfree, by rwa [List.dropLast_concat], rfl⟩⟩

end FileTree

end StripSequencer
