import ApiStubs.Disk

/-!
# Proofs — Walking — where paths lead

A path is walked piece by piece.  `Disk.stride` is what one piece does, whatever comes behind it,
and `Disk.walk_cons` the walk in those terms; the facts about walks that come to something are one
case for each way it can go on (`Disk.Goes`), by induction on the links that may still be followed
and then on the pieces (`Disk.walk_induct`).

Every piece but the last must be or lead to a directory, so that a path can be taken apart behind
any of its pieces: `Disk.walk_append` and `Disk.directory_of_walk_append`.  What leads to a
directory does so in every tree that has kept its directories and links (`Disk.Keeps.walk`).
-/

namespace ApiStubs

/-! ### Paths of names in a directory -/

/-- A text is cut at a separator into the pieces before and behind it. -/
theorem Text.cut_append_cut (sep : Char) (s t : List Char) :
    cut sep (s ++ sep :: t) = cut sep s ++ cut sep t := by
  induction s with
  | nil =>
    cases ht : cut sep t with
    | nil => exact absurd ht (cut_ne_nil sep t)
    | cons piece others => simp [cut, ht]
  | cons c s ih =>
    cases hs : cut sep s with
    | nil => exact absurd hs (cut_ne_nil sep s)
    | cons piece others => by_cases hc : c = sep <;> simp [cut, ih, hs, hc]

namespace FilePath

/-- The pieces of a directory's path in front of the names in it. -/
def front (directory : FilePath) : List String :=
  if directory.text = "" then []
  else if Text.endsWith directory.text '/' then directory.pieces.dropLast
  else directory.pieces

theorem toList_of_endsWith {s : String} {c : Char} (h : Text.endsWith s c) :
    ∃ before, s.toList = before ++ [c] := by
  simp only [Text.endsWith, beq_iff_eq] at h
  exact List.getLast?_eq_some_iff.mp h

theorem pieces_of_endsWith {directory : FilePath} {before : List Char}
    (h : directory.text.toList = before ++ ['/']) :
    directory.pieces = (Text.cut '/' before).map String.ofList ++ [""] := by
  rw [pieces, Text.pieces, h, Text.cut_append_cut, List.map_append]
  rfl

/-- The pieces of the path itself, which may be written with a separator at its end. -/
theorem pieces_eq_front (directory : FilePath) :
    directory.pieces = directory.front ∨ directory.pieces = directory.front ++ [""] := by
  rw [front]
  split
  · rename_i hempty
    exact .inr (by rw [pieces, hempty]; rfl)
  split
  · rename_i hends
    obtain ⟨before, hbefore⟩ := toList_of_endsWith hends
    exact .inr (by rw [pieces_of_endsWith hbefore, List.dropLast_concat])
  · exact .inl rfl

theorem startsWith_separator (s : String) :
    Text.startsWith s "/" = (s.toList.head? == some '/') := by
  cases hs : s.toList with
  | nil => simp [Text.startsWith, hs]
  | cons c rest => simp [Text.startsWith, hs, List.isPrefixOf, Bool.beq_comm]

theorem not_startsWith_separator {s : String} (h : '/' ∉ s.toList) :
    Text.startsWith s "/" = false := by
  rw [startsWith_separator, beq_eq_false_iff_ne]
  exact fun hhead => h (List.mem_of_mem_head? hhead)

theorem text_join {directory : FilePath} {name : String} (h : Text.startsWith name "/" = false) :
    (directory.join name).text = (if directory.text = "" || Text.endsWith directory.text '/'
      then directory.text else directory.text ++ "/") ++ name := by
  rw [join]
  rw [h]
  cases decide (directory.text = "") || Text.endsWith directory.text '/' <;> rfl

/-- A relative path in a directory is written behind the pieces of the directory. -/
theorem pieces_join_relative {other : String} (h : Text.startsWith other "/" = false)
    (directory : FilePath) :
    (directory.join other).pieces = directory.front ++ Text.pieces '/' other := by
  rw [pieces, text_join h, front]
  by_cases hempty : directory.text = ""
  · simp [hempty]
  rw [if_neg hempty]
  -- the separator is there already, or is written between the two
  by_cases hends : Text.endsWith directory.text '/'
  · obtain ⟨before, hbefore⟩ := toList_of_endsWith hends
    rw [if_pos (by simp [hends]), if_pos hends, pieces_of_endsWith hbefore, List.dropLast_concat,
      Text.pieces, Text.pieces, String.toList_append, hbefore, List.append_assoc,
      List.singleton_append, Text.cut_append_cut, List.map_append]
  · have hslash : "/".toList = ['/'] := rfl
    rw [if_neg (by simp [hempty, hends]), if_neg hends, pieces, Text.pieces, Text.pieces, Text.pieces,
      String.toList_append, String.toList_append, hslash, List.append_assoc, List.singleton_append,
      Text.cut_append_cut, List.map_append]

/-- A name in a directory is one piece behind those of the directory. -/
theorem pieces_join {name : String} (h : '/' ∉ name.toList) (directory : FilePath) :
    (directory.join name).pieces = directory.front ++ [name] := by
  have halone : Text.pieces '/' name = [name] := by
    simp [Text.pieces, Text.cut_eq_singleton h]
  rw [pieces_join_relative (not_startsWith_separator h), halone]

/-- A relative path in a directory is absolute where the directory's path is. -/
theorem isAbsolute_join_relative {other : String} (h : Text.startsWith other "/" = false)
    (directory : FilePath) : (directory.join other).isAbsolute = directory.isAbsolute := by
  rw [isAbsolute, text_join h, isAbsolute]
  by_cases hempty : directory.text = ""
  · rw [hempty, if_pos (by simp), String.empty_append, h]
    rfl
  · obtain ⟨c, rest, hc⟩ := List.exists_cons_of_ne_nil
      (fun hnil => hempty (String.toList_eq_nil_iff.mp hnil))
    split <;> simp [startsWith_separator, hc]

theorem isAbsolute_join {name : String} (h : '/' ∉ name.toList) (directory : FilePath) :
    (directory.join name).isAbsolute = directory.isAbsolute :=
  isAbsolute_join_relative (not_startsWith_separator h) directory

/-- The text is the name of an entry of a directory. -/
structure IsFileName (name : String) : Prop where
  no_separator : '/' ∉ name.toList
  no_filler : isFiller name = false
  not_up : name ≠ ".."

theorem IsFileName.join_nonempty {name : String} (h : IsFileName name) (directory : FilePath) :
    (directory.join name).text ≠ "" := by
  intro hempty
  have hpieces := pieces_join h.no_separator directory
  have hlast : (directory.front ++ [name]).getLast? = some "" := by
    rw [← hpieces, pieces, hempty]
    rfl
  have hfiller := h.no_filler
  rw [List.getLast?_concat, Option.some.injEq] at hlast
  rw [hlast] at hfiller
  exact Bool.noConfusion hfiller

end FilePath

namespace Disk

/-! ### One piece of a path -/

/-- What one piece of a path comes to. -/
inductive Stride
  | refused (cause : DiskError)
  | reaches (here : Location)
  | missing (next : Location)
  | file (next : Location) (content : Content)
  | link (next : Location) (target : String)

/-- What one piece of a path comes to, from a location. -/
def stride (disk : Disk) (here : Location) (piece : String) : Stride :=
  if disk.entryAt here ≠ some .directory then .refused .notDirectory
  else if FilePath.isFiller piece then .reaches here
  else if piece = ".." then .reaches here.dropLast
  else if maxNameBytes < piece.utf8ByteSize then .refused .nameTooLong
  else match disk.entryAt (here ++ [piece]) with
    | none => .missing (here ++ [piece])
    | some .directory => .reaches (here ++ [piece])
    | some (.file content) => .file (here ++ [piece]) content
    | some (.link target) => .link (here ++ [piece]) target

theorem walk_nil (disk : Disk) (follow : Bool) (links : Nat) (here : Location) :
    disk.walk follow links here [] = match disk.entryAt here with
      | some entry => .ok (.found here entry)
      | none => .error .noEntry := by
  cases links <;> rfl

/-- A walk goes on by what its first stride comes to. -/
theorem walkOn_cons (disk : Disk) (follow : Bool)
    (onward : Location → List String → Except DiskError Target) (here : Location) (piece : String)
    (rest : List String) :
    disk.walkOn follow onward here (piece :: rest) = match disk.stride here piece with
      | .refused cause => .error cause
      | .reaches there => disk.walkOn follow onward there rest
      | .missing next => if rest = [] then .ok (.free next) else .error .noEntry
      | .file next content =>
        if rest = [] then .ok (.found next (.file content)) else .error .notDirectory
      | .link next target =>
        if rest = [] && !follow then .ok (.found next (.link target))
        else onward (linkStart here target) (Text.pieces '/' target ++ rest) := by
  rw [walkOn, stride]
  by_cases hdir : disk.entryAt here ≠ some .directory
  · rw [if_pos hdir, if_pos hdir]
  rw [if_neg hdir, if_neg hdir]
  by_cases hfiller : FilePath.isFiller piece
  · rw [if_pos hfiller, if_pos hfiller]
  rw [if_neg hfiller, if_neg hfiller]
  by_cases hup : piece = ".."
  · rw [if_pos hup, if_pos hup]
  rw [if_neg hup, if_neg hup]
  by_cases hlong : maxNameBytes < piece.utf8ByteSize
  · rw [if_pos hlong, if_pos hlong]
  rw [if_neg hlong, if_neg hlong]
  simp only
  cases disk.entryAt (here ++ [piece]) with
  | none => rfl
  | some entry => cases entry <;> rfl

/-- A walk goes by its first piece, and along links while some are left. -/
theorem walk_cons (disk : Disk) (follow : Bool) (links : Nat) (here : Location) (piece : String)
    (rest : List String) :
    disk.walk follow links here (piece :: rest) = match disk.stride here piece with
      | .refused cause => .error cause
      | .reaches there => disk.walk follow links there rest
      | .missing next => if rest = [] then .ok (.free next) else .error .noEntry
      | .file next content =>
        if rest = [] then .ok (.found next (.file content)) else .error .notDirectory
      | .link next target =>
        if rest = [] && !follow then .ok (.found next (.link target))
        else match links with
          | 0 => .error .tooManyLinks
          | links + 1 =>
            disk.walk follow links (linkStart here target) (Text.pieces '/' target ++ rest) := by
  cases links <;> exact walkOn_cons disk follow _ here piece rest

/-- Induction along a walk, which goes on behind the piece at its front or along a link. -/
theorem walk_induct {P : Nat → Location → List String → Prop} (nil : ∀ links here, P links here [])
    (cons : ∀ links here piece rest, (∀ there, P links there rest) →
      (∀ fewer < links, ∀ there pieces, P fewer there pieces) → P links here (piece :: rest))
    (links : Nat) (here : Location) (pieces : List String) : P links here pieces := by
  -- a link takes the walk to pieces of any number, but leaves fewer links to follow
  induction links using Nat.strongRecOn generalizing here pieces with
  | _ links followed =>
    induction pieces generalizing here with
    | nil => exact nil links here
    | cons piece rest behind => exact cons links here piece rest behind followed

/-- A piece that is walked starts from a directory. -/
theorem entryAt_of_stride {disk : Disk} {here : Location} (piece : String)
    (h : ∀ cause, disk.stride here piece ≠ .refused cause) :
    disk.entryAt here = some .directory := by
  refine Decidable.byContradiction fun hdir => ?_
  exact h .notDirectory (by rw [stride, if_pos hdir])

theorem entryAt_of_stride_file {disk : Disk} {here next : Location} {piece : String}
    {content : Content} (h : disk.stride here piece = .file next content) :
    disk.entryAt next = some (.file content) := by
  rw [stride] at h
  split at h
  · cases h
  split at h
  · cases h
  split at h
  · cases h
  split at h
  · cases h
  split at h <;> cases h
  assumption

theorem entryAt_of_stride_missing {disk : Disk} {here next : Location} {piece : String}
    (h : disk.stride here piece = .missing next) : disk.entryAt next = none ∧ next ≠ [] := by
  rw [stride] at h
  split at h
  · cases h
  split at h
  · cases h
  split at h
  · cases h
  split at h
  · cases h
  split at h <;> cases h
  exact ⟨‹_›, by simp⟩

/-- A walk that follows every link. -/
theorem walk_cons_follow (disk : Disk) (links : Nat) (here : Location) (piece : String)
    (rest : List String) :
    disk.walk true links here (piece :: rest) = match disk.stride here piece with
      | .refused cause => .error cause
      | .reaches there => disk.walk true links there rest
      | .missing next => if rest = [] then .ok (.free next) else .error .noEntry
      | .file next content =>
        if rest = [] then .ok (.found next (.file content)) else .error .notDirectory
      | .link _ target =>
        match links with
        | 0 => .error .tooManyLinks
        | links + 1 =>
          disk.walk true links (linkStart here target) (Text.pieces '/' target ++ rest) := by
  rw [walk_cons]
  cases disk.stride here piece <;> simp

/-- What a walk that comes to something does with its first piece: it goes on behind the piece or
along a link, or the piece is the last one and names what the walk comes to. -/
inductive Goes (disk : Disk) (follow : Bool) (here : Location) (piece : String)
    (rest : List String) : Nat → Target → Prop where
  | on {links : Nat} {target : Target} {there : Location} :
      disk.stride here piece = .reaches there → disk.walk follow links there rest = .ok target →
      Goes disk follow here piece rest links target
  | free {links : Nat} {next : Location} :
      disk.stride here piece = .missing next → rest = [] →
      Goes disk follow here piece rest links (.free next)
  | file {links : Nat} {next : Location} {content : Content} :
      disk.stride here piece = .file next content → rest = [] →
      Goes disk follow here piece rest links (.found next (.file content))
  | link {links : Nat} {next : Location} {text : String} :
      follow = false → disk.stride here piece = .link next text → rest = [] →
      Goes disk follow here piece rest links (.found next (.link text))
  | along {links : Nat} {target : Target} {next : Location} {text : String} :
      disk.stride here piece = .link next text →
      disk.walk follow links (linkStart here text) (Text.pieces '/' text ++ rest) = .ok target →
      Goes disk follow here piece rest (links + 1) target

/-- A walk that comes to something goes there by one of these ways. -/
theorem goes_of_walk {disk : Disk} {follow : Bool} {links : Nat} {here : Location} {piece : String}
    {rest : List String} {target : Target}
    (h : disk.walk follow links here (piece :: rest) = .ok target) :
    disk.Goes follow here piece rest links target := by
  rw [walk_cons] at h
  cases hstride : disk.stride here piece with
  | refused cause =>
    rw [hstride] at h
    cases h
  | reaches there =>
    rw [hstride] at h
    exact .on hstride h
  | missing next =>
    simp only [hstride] at h
    split at h <;> cases h
    exact .free hstride ‹_›
  | file next content =>
    simp only [hstride] at h
    split at h <;> cases h
    exact .file hstride ‹_›
  | link next text =>
    simp only [hstride] at h
    split at h
    · rename_i hlast
      rw [Bool.and_eq_true, decide_eq_true_iff, Bool.not_eq_true'] at hlast
      cases h
      exact .link hlast.2 hstride hlast.1
    · cases links with
      | zero => cases h
      | succ links => exact .along hstride h

/-! ### Taking a walk apart -/

/-- What leads to a directory leads there whatever comes behind. -/
theorem walk_append {disk : Disk} {links : Nat} {here there : Location} {front : List String}
    (h : disk.walk true links here front = .ok (.found there .directory)) :
    ∃ left, ∀ rest, disk.walk true links here (front ++ rest) = disk.walk true left there rest := by
  induction links, here, front using walk_induct with
  | nil links here =>
    rw [walk_nil] at h
    split at h <;> cases h
    exact ⟨links, fun _ => rfl⟩
  | cons links here piece front behind followed =>
    simp only [List.cons_append, walk_cons_follow]
    cases goes_of_walk h with
    | on hstride hrest =>
      simp only [hstride]
      exact behind _ hrest
    | @along links _ _ _ hstride hrest =>
      obtain ⟨left, hleft⟩ := followed links (Nat.lt_succ_self links) _ _ hrest
      exact ⟨left, fun rest => by simpa only [hstride, List.append_assoc] using hleft rest⟩

/-- Every piece but the last leads to a directory. -/
theorem directory_of_walk_append {disk : Disk} {links : Nat} {here : Location}
    {front rest : List String} (hrest : rest ≠ []) {target : Target}
    (h : disk.walk true links here (front ++ rest) = .ok target) :
    ∃ there, disk.walk true links here front = .ok (.found there .directory) := by
  induction links, here, front using walk_induct with
  | nil links here =>
    obtain ⟨piece, rest, rfl⟩ := List.exists_cons_of_ne_nil hrest
    -- a piece is left, and pieces are walked from directories only
    have hdir : disk.entryAt here = some .directory :=
      entryAt_of_stride piece fun cause hstride => by
        rw [List.nil_append, walk_cons, hstride] at h
        cases h
    exact ⟨here, by rw [walk_nil, hdir]⟩
  | cons links here piece front behind followed =>
    have hmore : front ++ rest ≠ [] := List.append_ne_nil_of_right_ne_nil front hrest
    rw [List.cons_append] at h
    rw [walk_cons_follow]
    cases goes_of_walk h with
    | on hstride hgoes =>
      simp only [hstride]
      exact behind _ hgoes
    | free _ hlast | file _ hlast | link _ _ hlast => exact absurd hlast hmore
    | @along links _ _ _ hstride hgoes =>
      simp only [hstride]
      rw [← List.append_assoc] at hgoes
      exact followed links (Nat.lt_succ_self links) _ _ hgoes

/-- A walk ends at an entry of the tree. -/
theorem entryAt_of_walk {disk : Disk} {links : Nat} {here there : Location} {pieces : List String}
    {entry : Entry} (h : disk.walk true links here pieces = .ok (.found there entry)) :
    disk.entryAt there = some entry := by
  induction links, here, pieces using walk_induct with
  | nil links here =>
    rw [walk_nil] at h
    cases hentry : disk.entryAt here with
    | none => rw [hentry] at h; cases h
    | some found => rw [hentry] at h; cases h; exact hentry
  | cons links here piece rest behind followed =>
    cases goes_of_walk h with
    | on _ hrest => exact behind _ hrest
    | file hstride _ => exact entryAt_of_stride_file hstride
    | link hfollow _ _ => cases hfollow
    | along _ hrest => exact followed _ (Nat.lt_succ_self _) _ _ hrest

/-- A walk to a free name ends where no entry is. -/
theorem entryAt_of_walk_free {disk : Disk} {follow : Bool} {links : Nat} {here there : Location}
    {pieces : List String} (h : disk.walk follow links here pieces = .ok (.free there)) :
    disk.entryAt there = none ∧ there ≠ [] := by
  induction links, here, pieces using walk_induct with
  | nil links here =>
    rw [walk_nil] at h
    split at h <;> cases h
  | cons links here piece rest behind followed =>
    cases goes_of_walk h with
    | on _ hrest => exact behind _ hrest
    | free hstride _ => exact entryAt_of_stride_missing hstride
    | along _ hrest => exact followed _ (Nat.lt_succ_self _) _ _ hrest

theorem walk_of_resolve {disk : Disk} {follow : Bool} {path : FilePath} {target : Target}
    (h : disk.resolve follow path = .ok target) :
    disk.walk follow maxLinks (if path.isAbsolute then [] else disk.workingDirectory) path.pieces
      = .ok target := by
  rw [resolve] at h
  split at h
  · cases h
  split at h
  · cases h
  exact h

theorem entryAt_of_resolve {disk : Disk} {path : FilePath} {here : Location} {entry : Entry}
    (h : disk.resolve true path = .ok (.found here entry)) : disk.entryAt here = some entry :=
  entryAt_of_walk (walk_of_resolve h)

theorem entryAt_of_resolve_free {disk : Disk} {follow : Bool} {path : FilePath} {here : Location}
    (h : disk.resolve follow path = .ok (.free here)) : disk.entryAt here = none ∧ here ≠ [] :=
  entryAt_of_walk_free (walk_of_resolve h)

/-! ### Trees that have grown -/

/-- The second tree has kept the directories and the links of the first. -/
structure Keeps (disk later : Disk) : Prop where
  workingDirectory : later.workingDirectory = disk.workingDirectory
  directories : ∀ here, disk.entryAt here = some .directory → later.entryAt here = some .directory
  links : ∀ here target, disk.entryAt here = some (.link target) →
    later.entryAt here = some (.link target)

namespace Keeps

variable {disk later : Disk}

theorem refl (disk : Disk) : Keeps disk disk := ⟨rfl, fun _ h => h, fun _ _ h => h⟩

theorem trans {last : Disk} (h : Keeps disk later) (h' : Keeps later last) : Keeps disk last where
  workingDirectory := h'.workingDirectory.trans h.workingDirectory
  directories here hd := h'.directories here (h.directories here hd)
  links here target hl := h'.links here target (h.links here target hl)

/-- A step to a directory or onto a link is the same in both trees. -/
theorem stride (h : Keeps disk later) {here : Location} {piece : String}
    (hstride : (∃ next, disk.stride here piece = .reaches next)
      ∨ ∃ next target, disk.stride here piece = .link next target) :
    later.stride here piece = disk.stride here piece := by
  have hdir : disk.entryAt here = some .directory := entryAt_of_stride piece fun cause hno => by
    simp [hno] at hstride
  rw [Disk.stride] at hstride
  rw [Disk.stride, Disk.stride]
  rw [if_neg (not_not_intro hdir)] at hstride ⊢
  rw [if_neg (not_not_intro (h.directories here hdir))]
  by_cases hfiller : FilePath.isFiller piece
  · rw [if_pos hfiller, if_pos hfiller]
  rw [if_neg hfiller] at hstride ⊢
  rw [if_neg hfiller]
  by_cases hup : piece = ".."
  · rw [if_pos hup, if_pos hup]
  rw [if_neg hup] at hstride ⊢
  rw [if_neg hup]
  by_cases hlong : maxNameBytes < piece.utf8ByteSize
  · rw [if_pos hlong, if_pos hlong]
  rw [if_neg hlong] at hstride ⊢
  rw [if_neg hlong]
  cases hentry : disk.entryAt (here ++ [piece]) with
  | none => simp [hentry] at hstride
  | some entry =>
    cases entry with
    | directory => rw [h.directories _ hentry]
    | file content => simp [hentry] at hstride
    | link target => rw [h.links _ target hentry]

/-- What leads to a directory still leads there. -/
theorem walk (h : Keeps disk later) {links : Nat} {here there : Location} {pieces : List String}
    (hwalk : disk.walk true links here pieces = .ok (.found there .directory)) :
    later.walk true links here pieces = .ok (.found there .directory) := by
  induction links, here, pieces using walk_induct with
  | nil links here =>
    rw [walk_nil] at hwalk ⊢
    cases hentry : disk.entryAt here with
    | none => rw [hentry] at hwalk; cases hwalk
    | some entry =>
      rw [hentry] at hwalk
      cases hwalk
      rw [h.directories there hentry]
  | cons links here piece rest behind followed =>
    rw [walk_cons_follow]
    cases goes_of_walk hwalk with
    | on hstride hrest =>
      rw [h.stride (.inl ⟨_, hstride⟩)]
      simp only [hstride]
      exact behind _ hrest
    | along hstride hrest =>
      rw [h.stride (.inr ⟨_, _, hstride⟩)]
      simp only [hstride]
      exact followed _ (Nat.lt_succ_self _) _ _ hrest

end Keeps

/-! ### Names in a directory -/

/-- The location from which a path is walked. -/
def start (disk : Disk) (path : FilePath) : Location :=
  if path.isAbsolute then [] else disk.workingDirectory

/-- The directory that a path leads to; the empty path leads to the working directory. -/
def directoryAt? (disk : Disk) (path : FilePath) : Option Location :=
  match disk.walk true maxLinks (disk.start path) path.pieces with
  | .ok (.found here .directory) => some here
  | _ => none

/-- What a name in a directory comes to. -/
theorem stride_name {disk : Disk} {here : Location} {name : String}
    (hname : FilePath.IsFileName name) (hdir : disk.entryAt here = some .directory) :
    disk.stride here name = if maxNameBytes < name.utf8ByteSize then .refused .nameTooLong
      else match disk.entryAt (here ++ [name]) with
        | none => .missing (here ++ [name])
        | some .directory => .reaches (here ++ [name])
        | some (.file content) => .file (here ++ [name]) content
        | some (.link target) => .link (here ++ [name]) target := by
  rw [stride, if_neg (not_not_intro hdir), if_neg (by simp [hname.no_filler]), if_neg hname.not_up]

/-- A separator at the end of a directory's path leads no further. -/
theorem walk_front_filler {disk : Disk} {links : Nat} {here there : Location} {front : List String}
    (h : disk.walk true links here front = .ok (.found there .directory)) :
    disk.walk true links here (front ++ [""]) = .ok (.found there .directory) := by
  have hdir := entryAt_of_walk h
  obtain ⟨left, hleft⟩ := walk_append h
  -- an empty piece is a filler
  have hstride : disk.stride there "" = .reaches there := by
    rw [stride, if_neg (not_not_intro hdir)]
    rfl
  rw [hleft, walk_cons_follow]
  simp only [hstride, walk_nil, hdir]

/-- The pieces in front of the names in a directory lead there as its path does. -/
theorem directoryAt?_eq_some {disk : Disk} {path : FilePath} {here : Location} :
    disk.directoryAt? path = some here ↔
      disk.walk true maxLinks (disk.start path) path.front = .ok (.found here .directory) := by
  have hiff : disk.directoryAt? path = some here ↔
      disk.walk true maxLinks (disk.start path) path.pieces = .ok (.found here .directory) := by
    rw [directoryAt?]
    split
    · rename_i heq
      simp [heq]
    · rename_i hne
      exact ⟨fun h => (nomatch h), fun h => absurd h (hne here)⟩
  rw [hiff]
  rcases path.pieces_eq_front with h | h
  · rw [h]
  rw [h]
  constructor
  · intro hwalk
    obtain ⟨there, hthere⟩ := directory_of_walk_append (List.cons_ne_nil "" []) hwalk
    rw [walk_front_filler hthere] at hwalk
    cases hwalk
    exact hthere
  · exact walk_front_filler

theorem entryAt_of_directoryAt? {disk : Disk} {path : FilePath} {here : Location}
    (h : disk.directoryAt? path = some here) : disk.entryAt here = some .directory :=
  entryAt_of_walk (directoryAt?_eq_some.mp h)

theorem Keeps.directoryAt? {disk later : Disk} (h : Keeps disk later) {path : FilePath}
    {here : Location} (hhere : disk.directoryAt? path = some here) :
    later.directoryAt? path = some here := by
  have hstart : later.start path = disk.start path := by rw [start, start, h.workingDirectory]
  rw [directoryAt?_eq_some, hstart]
  exact h.walk (directoryAt?_eq_some.mp hhere)

theorem start_join {name : String} (h : '/' ∉ name.toList) (disk : Disk) (path : FilePath) :
    disk.start (path.join name) = disk.start path := by
  rw [start, start, FilePath.isAbsolute_join h]

theorem resolve_join {disk : Disk} {path : FilePath} {name : String}
    (hname : FilePath.IsFileName name) :
    disk.resolve true (path.join name) =
      if maxPathBytes < (path.join name).text.utf8ByteSize then .error .nameTooLong
      else disk.walk true maxLinks (disk.start path) (path.front ++ [name]) := by
  rw [← start_join hname.no_separator, ← FilePath.pieces_join hname.no_separator, resolve,
    if_neg (hname.join_nonempty path)]
  rfl

/-- What is found, or found free, is so in the directory in front of the last piece. -/
theorem directoryAt?_of_resolve {disk : Disk} {path : FilePath} {name : String}
    (hname : FilePath.IsFileName name) {target : Target}
    (h : disk.resolve true (path.join name) = .ok target) :
    ∃ here, disk.directoryAt? path = some here := by
  rw [resolve_join hname] at h
  split at h
  · cases h
  obtain ⟨here, hhere⟩ := directory_of_walk_append (List.cons_ne_nil name []) h
  exact ⟨here, directoryAt?_eq_some.mpr hhere⟩

/-- The name in a directory is short enough to be looked up. -/
def Fits (path : FilePath) (name : String) : Prop :=
  name.utf8ByteSize ≤ maxNameBytes ∧ (path.join name).text.utf8ByteSize ≤ maxPathBytes

/-- What the path of a name in a directory leads to, where the name is no link. -/
theorem resolve_name {disk : Disk} {path : FilePath} {name : String} {here : Location}
    (hname : FilePath.IsFileName name) (hhere : disk.directoryAt? path = some here)
    (hlink : ∀ target, disk.entryAt (here ++ [name]) ≠ some (.link target))
    (hfits : Fits path name) :
    disk.resolve true (path.join name) = .ok (match disk.entryAt (here ++ [name]) with
      | none => .free (here ++ [name])
      | some entry => .found (here ++ [name]) entry) := by
  have hdir := entryAt_of_directoryAt? hhere
  obtain ⟨left, hleft⟩ := walk_append (directoryAt?_eq_some.mp hhere)
  rw [resolve_join hname, if_neg (Nat.not_lt.mpr hfits.2), hleft, walk_cons_follow,
    stride_name hname hdir, if_neg (Nat.not_lt.mpr hfits.1)]
  cases hentry : disk.entryAt (here ++ [name]) with
  | none => rfl
  | some entry =>
    cases entry with
    | directory => simp only [walk_nil, hentry]
    | file content => rfl
    | link target => exact absurd hentry (hlink target)

/-- Only what fits is looked up. -/
theorem fits_of_resolve {disk : Disk} {path : FilePath} {name : String}
    (hname : FilePath.IsFileName name) {target : Target}
    (h : disk.resolve true (path.join name) = .ok target) : Fits path name := by
  obtain ⟨here, hhere⟩ := directoryAt?_of_resolve hname h
  have hdir := entryAt_of_directoryAt? hhere
  obtain ⟨left, hleft⟩ := walk_append (directoryAt?_eq_some.mp hhere)
  rw [resolve_join hname] at h
  by_cases hpath : maxPathBytes < (path.join name).text.utf8ByteSize
  · rw [if_pos hpath] at h
    cases h
  rw [if_neg hpath, hleft, walk_cons_follow, stride_name hname hdir] at h
  by_cases hlong : maxNameBytes < name.utf8ByteSize
  · rw [if_pos hlong] at h
    cases h
  exact ⟨Nat.not_lt.mp hlong, Nat.not_lt.mp hpath⟩

end Disk

end ApiStubs
