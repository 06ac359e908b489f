import FluentChain.Proofs.Build.Operation
import FluentChain.Proofs.Build.Place
import FluentChain.Proofs.Merge.Reading

/-!
# The numbers of files

A file gets a number when its name is first read, and keeps it: no operation takes a name away or moves it
(`Operation.fileNames_prefix`), whatever it is given.  So a position that is read from a text is displayed as this text
from then on, and two such positions have the same file number just if they name the same file
(`Build.position_round_trip`).
-/

namespace FluentChain

namespace Program

variable {p q : Program} {name : String} {id : FileId}

/-- The number of the file with a name. -/
def fileId? (p : Program) (name : String) : Option FileId := p.fileNames.idxOf? name

/-- Registering a file gives `id` and leads to `q`: the number that the name has, or else the next one. -/
inductive Registers (p : Program) (name : String) : FileId → Program → Prop
  | known {id : FileId} (h : p.fileId? name = some id) : Registers p name id p
  | new (h : p.fileId? name = none) : Registers p name p.files.size { p with files := p.files.push ⟨name, []⟩ }

theorem getElem?_of_fileId? (h : p.fileId? name = some id) : p.fileNames[id]? = some name := by
  obtain ⟨hlt, hname, -⟩ := List.idxOf?_eq_some_iff.1 h
  exact List.getElem?_eq_some_iff.2 ⟨hlt, hname⟩

theorem fileName_of_fileId? (h : p.fileId? name = some id) : p.fileName id = name := by
  have hname := getElem?_of_fileId? h
  rw [getElem?_fileNames] at hname
  obtain ⟨file, hfile, rfl⟩ := Option.map_eq_some_iff.1 hname
  rw [fileName, hfile]

theorem fileId?_mono (h : p.fileId? name = some id) (hfiles : p.fileNames <+: q.fileNames) :
    q.fileId? name = some id := by
  obtain ⟨more, hmore⟩ := hfiles
  rw [fileId?, List.idxOf?] at h ⊢
  rw [← hmore, List.findIdx?_append, h]
  rfl

theorem Registers.fileNames_prefix (h : p.Registers name id q) : p.fileNames <+: q.fileNames := by
  cases h with
  | known => exact List.prefix_refl _
  | new => exact Build.fileNames_push p name ▸ List.prefix_append _ _

theorem Registers.fileId?_eq (h : p.Registers name id q) : q.fileId? name = some id := by
  cases h with
  | known h => exact h
  | new h =>
    rw [fileId?, List.idxOf?] at h ⊢
    rw [Build.fileNames_push, List.findIdx?_append, h]
    simp [fileNames]

end Program

namespace Build

variable {p : Program}

/-- Registering a file always succeeds. -/
theorem exists_registers (p : Program) (name : String) : ∃ id q, file name p = .ok id q ∧ p.Registers name id q := by
  have hfind : p.fileId? name = p.files.findIdx? (·.name == name) := by
    have harray := List.findIdx?_toArray (·.name == name) p.files.toList
    rw [Array.toArray_toList] at harray
    rw [Program.fileId?, Program.fileNames, List.idxOf?, List.findIdx?_map, harray]
    rfl
  cases hid : p.fileId? name with
  | some id =>
    refine ⟨id, p, ?_, .known hid⟩
    show EStateM.Result.ok _ _ = _
    rw [← hfind, hid]
  | none =>
    refine ⟨_, _, ?_, .new hid⟩
    show EStateM.Result.ok _ _ = _
    rw [← hfind, hid]

/-- A position that names a file registers it; any other does nothing to the program. -/
theorem run_position (text : String) (inherited : Option FileId) (p : Program) :
    (∃ name line col id q, WrittenPos.parse? text = some ⟨some name, line, col⟩ ∧ p.Registers name id q ∧
      position text inherited p = .ok ⟨id, line, col⟩ q) ∨
    (∃ line col file, WrittenPos.parse? text = some ⟨none, line, col⟩ ∧ inherited = some file ∧
      position text inherited p = .ok ⟨file, line, col⟩ p) ∨
    (∀ w, WrittenPos.parse? text = some w → w.file = none ∧ inherited = none) ∧
      position text inherited p = .error (.badPosition text) p := by
  unfold position
  cases hparse : WrittenPos.parse? text with
  | none => exact Or.inr (Or.inr ⟨nofun, rfl⟩)
  | some w =>
    obtain ⟨_ | name, line, col⟩ := w
    · cases inherited with
      | none => exact Or.inr (Or.inr ⟨fun w hw => by cases hw; exact ⟨rfl, rfl⟩, rfl⟩)
      | some file => exact Or.inr (Or.inl ⟨line, col, file, rfl, rfl, rfl⟩)
    · obtain ⟨id, q, hrun, hq⟩ := exists_registers p name
      exact Or.inl ⟨name, line, col, id, q, rfl, hq, bind_of_ok hrun⟩

/-! ### Operations -/

theorem stateAfter_of_ok {α : Type} {m : Build α} {a : α} {q : Program} (h : m p = .ok a q) : stateAfter m p = q := by
  rw [stateAfter, h]

theorem stateAfter_of_error {α : Type} {m : Build α} {e : LoadError} {q : Program} (h : m p = .error e q) :
    stateAfter m p = q := by
  rw [stateAfter, h]

/-- The step does nothing to the files, where it fails as well. -/
def KeepsFiles {α : Type} (m : Build α) : Prop := ∀ files, Keeps (fun p => p.files = files) m

namespace KeepsFiles

variable {α β : Type} {m : Build α} {f : α → Build β}

theorem bind (hm : KeepsFiles m) (hf : ∀ a, KeepsFiles (f a)) : KeepsFiles (m >>= f) :=
  fun files => Ensures.bind (hm files) fun a => hf a files

theorem get_bind {f : Program → Build α} (h : ∀ p, KeepsFiles (f p)) : KeepsFiles (get >>= f) :=
  fun files p hp => h p files p hp

theorem modifyGet {f : Program → α × Program} (h : ∀ p, (f p).2.files = p.files) :
    KeepsFiles (MonadState.modifyGet f) :=
  fun _ p hp => (h p).trans hp

theorem throw (e : LoadError) : KeepsFiles (MonadExcept.throw e : Build α) := fun _ _ hp => hp

theorem pure (a : α) : KeepsFiles (Pure.pure a) := fun _ _ hp => hp

theorem stateAfter_eq (h : KeepsFiles m) (p : Program) : (Build.stateAfter m p).files = p.files := by
  cases hrun : m p with
  | ok a q =>
    rw [stateAfter_of_ok hrun]
    exact (h p.files).of_ok rfl hrun
  | error e q =>
    rw [stateAfter_of_error hrun]
    exact (h p.files).of_error rfl hrun

end KeepsFiles

theorem keepsFiles_onTypes {α : Type} (step : TypeTable → α × TypeTable) : KeepsFiles (onTypes step) :=
  .modifyGet fun _ => rfl

theorem keepsFiles_parseType (text : String) : KeepsFiles (parseType text) := by
  intro files p hp
  unfold parseType
  cases TypeTable.parse text p.types <;> exact hp

theorem keepsFiles_setUnderlying (id underlying : TypeId) : KeepsFiles (setUnderlying id underlying) := by
  refine .get_bind fun p => ?_
  dsimp only
  split
  · exact .throw _
  · split
    · exact .throw _
    · exact .modifyGet fun _ => rfl

theorem keepsFiles_object (obj : Object) : KeepsFiles (object obj) := by
  intro files p hp
  rw [run_object]
  cases p.lookupObject? obj.key <;> exact hp

theorem keepsFiles_method (recv : TypeId) (name : String) (sig : TypeId) : KeepsFiles (method recv name sig) := by
  refine .get_bind fun p => ?_
  dsimp only
  split
  · exact .throw _
  · exact .bind (keepsFiles_object _) fun o => .bind (.modifyGet fun _ => rfl) fun _ => .pure o

theorem keepsFiles_unaryType (op : String) (type : TypeId) : KeepsFiles (unaryType op type) := by
  unfold unaryType
  split
  · exact .bind (keepsFiles_onTypes _) fun _ => .pure _
  · split
    · refine .get_bind fun q => ?_
      split <;> exact .pure _
    · exact .pure _

theorem keepsFiles_unary (op : String) (x : NodeId) (pos : Pos) : KeepsFiles (unary op x pos) := by
  refine .get_bind fun p => ?_
  dsimp only
  split
  · exact .bind (keepsFiles_unaryType op _) fun _ => .modifyGet fun _ => rfl
  · exact .modifyGet fun _ => rfl

/-- No operation takes the name of a file away or moves it, whatever the operation is given. -/
theorem Operation.fileNames_prefix (op : Operation) (p : Program) : p.fileNames <+: (op.after p).fileNames := by
  have hsame : ∀ {α : Type} {m : Build α}, KeepsFiles m → p.fileNames <+: (stateAfter m p).fileNames := by
    intro α m hm
    have hnames : (stateAfter m p).fileNames = p.fileNames := congrArg (·.toList.map (·.name)) (hm.stateAfter_eq p)
    exact hnames ▸ List.prefix_refl _
  have hafter : ∀ {q : Program}, op.after p = q → p.fileNames <+: q.fileNames →
      p.fileNames <+: (op.after p).fileNames := by
    rintro _ rfl hq
    exact hq
  cases op with
  | file name =>
    obtain ⟨id, q, hrun, hq⟩ := exists_registers p name
    exact hafter (stateAfter_of_ok hrun) hq.fileNames_prefix
  | position text inherited =>
    rcases run_position text inherited p with ⟨_, _, _, _, q, -, hq, hrun⟩ | ⟨_, _, _, -, -, hrun⟩ | ⟨-, hrun⟩
    · exact hafter (stateAfter_of_ok hrun) hq.fileNames_prefix
    · exact hafter (stateAfter_of_ok hrun) (List.prefix_refl _)
    · exact hafter (stateAfter_of_error hrun) (List.prefix_refl _)
  | pushDecl id decl => exact fileNames_pushDecl p id decl ▸ List.prefix_refl _
  | parseType text => exact hsame (keepsFiles_parseType text)
  | setUnderlying id underlying => exact hsame (keepsFiles_setUnderlying id underlying)
  | defineStruct id fields =>
    exact hsame (.bind (keepsFiles_onTypes _) fun _ => keepsFiles_setUnderlying id _)
  | object key name kind type pos => exact hsame (keepsFiles_object _)
  | method recv name sig => exact hsame (keepsFiles_method recv name sig)
  | unary op x pos => exact hsame (keepsFiles_unary op x pos)
  | _ => exact List.prefix_refl _

theorem Operation.fileNames_prefix_afterAll (ops : List Operation) (p : Program) :
    p.fileNames <+: (afterAll ops p).fileNames := by
  induction ops generalizing p with
  | nil => exact List.prefix_refl _
  | cons op ops ih => exact (op.fileNames_prefix p).trans (ih (op.after p))

/-! ### Positions and their texts -/

/-- A position with its file, as it is displayed, is read as the file's number, which is registered if it is new. -/
theorem position_place {name : String} {line col : Nat} (hname : name ≠ "") (hline : line < WrittenPos.countBound)
    (hcol : col < WrittenPos.countBound) (inherited : Option FileId) (p : Program) :
    ∃ id q, position (WrittenPos.place name line col) inherited p = .ok ⟨id, line, col⟩ q ∧ p.Registers name id q := by
  obtain ⟨id, q, hrun, hq⟩ := exists_registers p name
  refine ⟨id, q, ?_, hq⟩
  unfold position
  rw [WrittenPos.parse?_place hname hline hcol]
  exact bind_of_ok hrun

theorem displayPos_of_fileId? {name : String} {id : FileId} (h : p.fileId? name = some id) (line col : Nat) :
    p.displayPos ⟨id, line, col⟩ = WrittenPos.place name line col := by
  rw [Program.displayPos, Program.fileName_of_fileId? h, WrittenPos.place]

/-- A position that names a file is read whatever file is inherited, and registers the file.  From then on, whatever is
done, it is displayed as it was written, no file changes its number, and of the positions that are read later just those
in this file have its number.  A position that names no file takes the inherited one.  A text that cannot be read leaves
the program as it was. -/
theorem position_round_trip (p : Program) (inherited : Option FileId) :
    (∀ name line col, name ≠ "" → line < WrittenPos.countBound → col < WrittenPos.countBound →
      ∃ id q, position (WrittenPos.place name line col) inherited p = .ok ⟨id, line, col⟩ q ∧ p.Registers name id q ∧
        ∀ ops, (∀ known number, q.fileId? known = some number →
            (Operation.afterAll ops q).fileId? known = some number) ∧
          (Operation.afterAll ops q).displayPos ⟨id, line, col⟩ = WrittenPos.place name line col ∧
          ∀ name' line' col' inherited', name' ≠ "" → line' < WrittenPos.countBound → col' < WrittenPos.countBound →
            ∃ id' r, position (WrittenPos.place name' line' col') inherited' (Operation.afterAll ops q) =
              .ok ⟨id', line', col'⟩ r ∧ (id' = id ↔ name' = name)) ∧
    (∀ text line col, WrittenPos.Writes ⟨none, line, col⟩ text.toList → position text inherited p =
      match inherited with
      | some file => .ok ⟨file, line, col⟩ p
      | none => .error (.badPosition text) p) ∧
    ∀ text e q, position text inherited p = .error e q → q = p ∧ e = .badPosition text ∧
      ∀ w : WrittenPos, w.Writes text.toList → w.file = none ∧ inherited = none := by
  refine ⟨fun name line col hname hline hcol => ?_, fun text line col hwrites => ?_, fun text e q hrun => ?_⟩
  · obtain ⟨id, q, hrun, hq⟩ := position_place hname hline hcol inherited p
    refine ⟨id, q, hrun, hq, fun ops => ?_⟩
    have hafter := Operation.fileNames_prefix_afterAll ops q
    have hid := Program.fileId?_mono hq.fileId?_eq hafter
    refine ⟨fun known number hnumber => Program.fileId?_mono hnumber hafter, displayPos_of_fileId? hid line col, ?_⟩
    intro name' line' col' inherited' hname' hline' hcol'
    obtain ⟨id', r, hrun', hr⟩ := position_place hname' hline' hcol' inherited' (Operation.afterAll ops q)
    have hid' : r.fileId? name = some id := Program.fileId?_mono hid hr.fileNames_prefix
    refine ⟨id', r, hrun', fun heq => ?_, fun heq => ?_⟩
    · rw [← Program.fileName_of_fileId? hr.fileId?_eq, heq, Program.fileName_of_fileId? hid']
    · have hsame := hr.fileId?_eq
      rw [heq, hid'] at hsame
      exact (Option.some.inj hsame).symm
  · have hparse := WrittenPos.parse?_eq_some_iff.2 hwrites
    unfold position
    rw [hparse]
    cases inherited <;> rfl
  · rcases run_position text inherited p with ⟨_, _, _, _, _, -, -, hok⟩ | ⟨_, _, _, -, -, hok⟩ | ⟨hnone, hfail⟩
    · cases hrun.symm.trans hok
    · cases hrun.symm.trans hok
    · cases hrun.symm.trans hfail
      exact ⟨rfl, rfl, fun w hw => hnone w (WrittenPos.parse?_eq_some_iff.2 hw)⟩

/-- A file whose name looks like a position keeps its number while another file comes and other operations follow. -/
theorem position_round_trip_colons :
    ∃ id q, position "a b:1:2:3:4294967295" (some 7) {} = .ok ⟨id, 3, 4294967295⟩ q ∧
      (Operation.afterAll (.position "a b:1:1" none :: Operation.listNode) q).displayPos ⟨id, 3, 4294967295⟩ =
        "a b:1:2:3:4294967295" ∧
      ∃ id' r, position "a b:1:2:0:0" none (Operation.afterAll (.position "a b:1:1" none :: Operation.listNode) q) =
        .ok ⟨id', 0, 0⟩ r ∧ id' = id := by
  have htext : WrittenPos.place "a b:1:2" 3 4294967295 = "a b:1:2:3:4294967295" ∧
      WrittenPos.place "a b:1:2" 0 0 = "a b:1:2:0:0" := by
    decide +kernel
  have hread := (position_round_trip {} (some 7)).1 "a b:1:2" 3 4294967295 (by decide) (by decide) (by decide)
  rw [htext.1] at hread
  obtain ⟨id, q, hrun, -, hafter⟩ := hread
  obtain ⟨-, hdisplay, hlater⟩ := hafter (.position "a b:1:1" none :: Operation.listNode)
  obtain ⟨id', r, hrun', hsame⟩ := hlater "a b:1:2" 0 0 none (by decide) (by decide) (by decide)
  rw [htext.2] at hrun'
  exact ⟨id, q, hrun, hdisplay, id', r, hrun', hsame.2 rfl⟩

end Build

end FluentChain
