import FluentChain.Proofs.Merge.Phases
import FluentChain.Proofs.Syntax.Graft

/-!
# Declarations read back

Dumps are transcribed faithfully: in the program that they describe the files have their numbers in the order in which
the dumps list them, and each file has the declarations that are listed for it, whose trees can be read back from the
nodes and lie one behind another (`transcribes_of_ofDumps`).
-/

namespace FluentChain

/-! ### Entries -/

/-- The declarations that files list, each with the name of its file. -/
def declEntries (fs : List FileDump) : List (String × NodeDump) := fs.flatMap fun f => f.decls.map (f.name, ·)

/-- The names of files, without repetition. -/
def listedNames (fs : List FileDump) : List String := (fs.map (·.name)).eraseDups

/-- Of the nodes `roots`, one for each entry, those of the file `name`. -/
def rootsIn (name : String) (entries : List (String × NodeDump)) (roots : List NodeId) : List NodeId :=
  ((entries.zip roots).filter fun entry => entry.1.1 = name).map Prod.snd

theorem rootsIn_append_singleton {entries : List (String × NodeDump)} {roots : List NodeId}
    (h : entries.length = roots.length) (name : String) (e : String × NodeDump) (n : NodeId) :
    rootsIn name (entries ++ [e]) (roots ++ [n]) = rootsIn name entries roots ++ if e.1 = name then [n] else [] := by
  rw [rootsIn, List.zip_append h, List.filter_append, List.map_append, ← rootsIn]
  congr 1
  by_cases he : e.1 = name <;> simp [he]

theorem rootsIn_eq_nil {name : String} {entries : List (String × NodeDump)} (h : ∀ e ∈ entries, e.1 ≠ name)
    (roots : List NodeId) : rootsIn name entries roots = [] := by
  rw [rootsIn, List.map_eq_nil_iff, List.filter_eq_nil_iff]
  rintro ⟨e, n⟩ hmem
  simpa using h e (List.of_mem_zip hmem).1

theorem mem_listedNames {fs : List FileDump} {name : String} : name ∈ listedNames fs ↔ name ∈ fs.map (·.name) :=
  List.mem_eraseDups

theorem mem_listedNames_of_mem_declEntries {fs : List FileDump} {e : String × NodeDump} (h : e ∈ declEntries fs) :
    e.1 ∈ listedNames fs := by
  obtain ⟨f, hf, he⟩ := List.mem_flatMap.1 h
  obtain ⟨d, -, rfl⟩ := List.mem_map.1 he
  exact mem_listedNames.2 (List.mem_map_of_mem hf)

theorem listedNames_append_singleton (fs : List FileDump) (f : FileDump) :
    listedNames (fs ++ [f]) = if f.name ∈ listedNames fs then listedNames fs else listedNames fs ++ [f.name] := by
  rw [listedNames, List.map_append, List.eraseDups_append, ← listedNames]
  by_cases hf : f.name ∈ fs.map (·.name)
  · rw [if_pos (mem_listedNames.2 hf)]
    simp [List.removeAll, List.mem_map.1 hf]
  · rw [if_neg (mt mem_listedNames.1 hf)]
    have hnew : [f.name].removeAll (fs.map (·.name)) = [f.name] := by simpa [List.removeAll] using hf
    rw [List.map_singleton, hnew, List.eraseDups_cons]
    rfl

namespace Program

variable {p q r : Program} {names : List String} {entries : List (String × NodeDump)} {roots : List NodeId}

/-! ### Ranges -/

/-- The nodes of each of several trees are a range, which ends with its root. -/
theorem Spans.exists_subtree_eq {first n : Nat} (h : p.Spans first roots) (hn : n ∈ roots) :
    ∃ start ≤ n, p.subtree n = List.range' start (n + 1 - start) := by
  obtain ⟨before, after, rfl⟩ := List.append_of_mem hn
  -- the range of all nodes is cut in front of the subtree, behind it, and once more before its root
  have hall := h.subtrees.symm
  rw [List.flatMap_append, List.flatMap_cons] at hall
  obtain ⟨k, -, -, hrest⟩ := List.range'_eq_append_iff.1 hall
  obtain ⟨length, -, hsubtree, -⟩ := List.range'_eq_append_iff.1 hrest.symm
  have hroot := hsubtree.symm
  rw [subtree] at hroot
  obtain ⟨below, hbelow, -, hlast⟩ := List.range'_eq_append_iff.1 hroot
  have hone : length - below = 1 := by simpa using (congrArg List.length hlast).symm
  have hend : n = first + k + below := by simpa [hone] using hlast
  have hlength : length = n + 1 - (first + k) := by omega
  exact ⟨first + k, by omega, by rw [hsubtree, Nat.mul_one, hlength]⟩

/-! ### Declarations that were added -/

theorem retains_pushDecl (p : Program) (file : FileId) (n : NodeId) :
    p.Retains { p with files := p.files.modify file fun f => { f with decls := f.decls ++ [n] } } where
  files := Build.fileNames_pushDecl p file n ▸ List.prefix_refl _
  objects := rfl
  nodes := List.prefix_refl _

/-- The declarations of `p` are the entries, each of which can be read back from its root in `roots`, and each file has
its own in their order.  The nodes of `p` are those of these trees, one tree behind another.  The files `names` come
first. -/
structure Collects (names : List String) (entries : List (String × NodeDump)) (roots : List NodeId) (p : Program) :
    Prop where
  nodup : p.fileNames.Nodup
  listed : names <+: p.fileNames
  trees : List.Forall₂ (fun e n => ∃ file, p.fileNames[file]? = some e.1 ∧ NodeDump.At p file e.2 n) entries roots
  decls : ∀ f ∈ p.files.toList, f.decls = rootsIn f.name entries roots
  spans : p.Spans 0 roots

namespace Collects

theorem name_mem (h : Collects names entries roots p) {e : String × NodeDump} (he : e ∈ entries) :
    e.1 ∈ p.fileNames := by
  obtain ⟨n, -, file, hfile, -⟩ := exists_of_mem_right h.trees.flip he
  exact List.mem_of_getElem? hfile

theorem trees_mono (h : Collects names entries roots p) (hq : p.Retains q) :
    List.Forall₂ (fun e n => ∃ file, q.fileNames[file]? = some e.1 ∧ NodeDump.At q file e.2 n) entries roots := by
  refine h.trees.imp ?_
  rintro e n ⟨file, hfile, hn⟩
  exact ⟨file, getElem?_fileNames_mono hfile hq.files, hn.mono hq⟩

/-- What is added to a file meanwhile is not a declaration. -/
theorem decls_mono (h : Collects names entries roots p) (hq : p.Gains q) :
    ∀ f ∈ q.files.toList, f.decls = rootsIn f.name entries roots := by
  intro f hf
  rcases hq.fresh f hf with hold | ⟨hempty, hnew⟩
  · exact h.decls f hold
  · refine hempty.trans (rootsIn_eq_nil ?_ roots).symm
    rintro e he heq
    exact hnew (heq ▸ h.name_mem he)

theorem gain (h : Collects names entries roots p) (hq : p.Gains q) (hsize : q.nodes.size = p.nodes.size) :
    Collects names entries roots q where
  nodup := hq.nodup h.nodup
  listed := h.listed.trans hq.files
  trees := h.trees_mono hq.toRetains
  decls := h.decls_mono hq
  spans := h.spans.mono hq.toRetains hsize

/-- A tree is added, and then declared in its file. -/
theorem pushDecl (h : Collects names entries roots p) (hq : p.Gains q) {file : FileId} {name : String}
    (hfile : p.fileNames[file]? = some name) {d : NodeDump} {n : NodeId} (hn : d.At q file n)
    (hspans : q.Spans p.nodes.size [n]) :
    Collects names (entries ++ [(name, d)]) (roots ++ [n])
      { q with files := q.files.modify file fun f => { f with decls := f.decls ++ [n] } } := by
  have hr := q.retains_pushDecl file n
  have hqfile : q.fileNames[file]? = some name := getElem?_fileNames_mono hfile hq.files
  have hlength : entries.length = roots.length := h.trees.length_eq
  refine ⟨?_, (h.listed.trans hq.files).trans hr.files, ?_, fun f hf => ?_, ?_⟩
  · rw [Build.fileNames_pushDecl]
    exact hq.nodup h.nodup
  · refine List.rel_append (h.trees_mono (hq.toRetains.trans hr)) (.cons ?_ .nil)
    exact ⟨file, getElem?_fileNames_mono hqfile hr.files, hn.mono hr⟩
  · rw [rootsIn_append_singleton hlength]
    obtain ⟨i, g, hg, rfl⟩ := Build.exists_of_mem_pushDecl (Array.mem_toList_iff.1 hf)
    have hname : q.fileNames[i]? = some g.name := by rw [getElem?_fileNames, hg, Option.map_some]
    -- no other file has this name, so the entry counts for the file that got the declaration and for no other
    have hiff : name = g.name ↔ file = i := by
      constructor
      · rintro rfl
        exact (List.getElem?_inj (List.getElem?_eq_some_iff.1 hqfile).1 (hq.nodup h.nodup)).1 (hqfile.trans hname.symm)
      · rintro rfl
        exact Option.some.inj (hqfile.symm.trans hname)
    simp only [hiff, h.decls_mono hq g (Array.mem_of_getElem? hg).val]
  · exact (h.spans.append hq.toRetains hspans).mono hr rfl

end Collects

end Program

/-! ### Merging -/

namespace Build

open Program

variable {names : List String}

/-- One declaration. -/
theorem ensures_decl (file : FileId) (name : String) (d : NodeDump) (entries : List (String × NodeDump)) :
    Ensures (fun p => (∃ roots, Collects names entries roots p) ∧ p.fileNames[file]? = some name)
      (do pushDecl file (← tree file d))
      (fun _ p => (∃ roots, Collects names (entries ++ [(name, d)]) roots p) ∧ p.fileNames[file]? = some name)
      fun _ _ => True := by
  refine Ensures.intro ?_ fun _ _ _ _ _ => trivial
  rintro p _ r ⟨⟨roots, hroots⟩, hfile⟩ hrun
  obtain ⟨n, q, htree, hpush⟩ := bind_eq_ok.1 hrun
  cases hpush
  obtain ⟨hq, hn, hspans⟩ := grafts_tree file d p n q htree
  refine ⟨⟨roots ++ [n], hroots.pushDecl hq hfile hn hspans⟩, ?_⟩
  rw [fileNames_pushDecl]
  exact getElem?_fileNames_mono hfile hq.files

/-- One file of a dump. -/
theorem ensures_declsOf (f : FileDump) (entries : List (String × NodeDump)) :
    Ensures (fun p => ∃ roots, Collects names entries roots p) (declsOf f)
      (fun _ p => ∃ roots, Collects names (entries ++ f.decls.map (f.name, ·)) roots p) fun _ _ => True := by
  have hfile : Ensures (fun p => ∃ roots, Collects names entries roots p) (file f.name)
      (fun id p => (∃ roots, Collects names entries roots p) ∧ p.fileNames[id]? = some f.name) fun _ _ => True := by
    refine Ensures.intro ?_ fun _ _ _ _ _ => trivial
    rintro p id q ⟨roots, hroots⟩ hrun
    obtain ⟨hq, hsize, hid⟩ := grafts_file f.name id q hrun
    exact ⟨⟨roots, hroots.gain hq hsize⟩, hid⟩
  refine Ensures.bind hfile fun id => ?_
  rw [List.map_eq_flatMap]
  exact (Ensures.forM_flatMap (fun before d _ => ensures_decl id f.name d before) entries).weaken (fun _ hp => hp)
    (fun _ _ hp => hp.1) fun _ _ h => h

/-- Files are numbered in the order in which they are listed first. -/
theorem fileNames_registerFiles (fs : List FileDump) {p : Program} (h : registerFiles fs {} = .ok ⟨⟩ p) :
    p.fileNames = listedNames fs := by
  have hround : ∀ before, ∀ f ∈ fs, Ensures (fun p : Program => p.fileNames = listedNames before)
      (do let _ ← file f.name) (fun _ p => p.fileNames = listedNames (before ++ [f])) fun _ _ => True := by
    intro before f _
    refine Ensures.bind (R := fun _ p => p.fileNames = listedNames (before ++ [f])) ?_ fun _ =>
      Ensures.pure fun _ hp => hp
    refine Ensures.intro ?_ fun _ _ _ _ _ => trivial
    rintro p id q hp hrun
    rw [listedNames_append_singleton, ← hp]
    rcases run_file f.name p with ⟨id', hfile, hid⟩ | ⟨hnew, hfile⟩
    · cases hfile.symm.trans hrun
      rw [if_pos (List.mem_of_getElem? hid)]
    · cases hfile.symm.trans hrun
      rw [if_neg hnew, fileNames_push]
  have hall := (Ensures.forM_flatMap hround []).of_ok rfl h
  simpa using hall

namespace Stage

variable {ds : List PackageDump} {p₀ p q : Program} (h : Stage ds p₀ p)

include h

theorem nodes_size : p.nodes.size = 0 := by
  rw [← length_syntaxOf, h.syntaxOf_eq]
  rfl

theorem collects : Collects (listedNames (filesOf ds)) [] [] p where
  nodup := h.describes.2.ready.nodup
  listed := fileNames_registerFiles _ h.registered ▸ h.describes.2.files
  trees := .nil
  decls := List.flatMap_eq_nil_iff.1 (congrArg Prod.snd h.syntaxOf_eq)
  spans := h.nodes_size ▸ .nil p

/-- All declarations have been added. -/
theorem exists_collects (hadded : (filesOf ds).forM declsOf p = .ok ⟨⟩ q) :
    ∃ roots, Collects (listedNames (filesOf ds)) (declEntries (filesOf ds)) roots q :=
  (Ensures.forM_flatMap (fun entries f _ => ensures_declsOf f entries) []).of_ok ⟨[], h.collects⟩ hadded

end Stage

end Build

/-! ### Whole programs -/

/-- The program `p` has the files and the declarations that dumps list, and `roots` are the nodes of these declarations.
The files that are listed have the first numbers, in the order in which they are listed first; other files have no
declarations.  The nodes of each declaration are a range that ends with the node of the declaration. -/
structure Program.Transcribes (ds : List PackageDump) (roots : List NodeId) (p : Program) : Prop
    extends Collects (listedNames (filesOf ds)) (declEntries (filesOf ds)) roots p where
  ordered : p.Ordered
  unlisted : ∀ {file : FileId} {f : SourceFile}, p.files[file]? = some f → f.name ∉ listedNames (filesOf ds) →
    (listedNames (filesOf ds)).length ≤ file ∧ f.decls = []
  ranges : ∀ n ∈ roots, ∃ first ≤ n, p.subtree n = List.range' first (n + 1 - first)

/-- A program that dumps describe is a faithful transcript of them. -/
theorem Program.transcribes_of_ofDumps {ds : List PackageDump} {p : Program} (h : Program.ofDumps ds = .ok p) :
    ∃ roots, p.Transcribes ds roots := by
  obtain ⟨p₀, p₁, hstage, hadded⟩ := Build.Stage.exists_of_ok h
  obtain ⟨roots, hroots⟩ := hstage.exists_collects hadded
  refine ⟨roots, hroots, (isForest_of_ofDumps h).ordered, ?_, fun n hn => hroots.spans.exists_subtree_eq hn⟩
  intro file f hf hnew
  refine ⟨Nat.not_lt.1 fun hlt => hnew ?_, ?_⟩
  · have hname : p.fileNames[file]? = some f.name := by rw [getElem?_fileNames, hf, Option.map_some]
    rw [List.prefix_iff_getElem?.1 hroots.listed file hlt, Option.some_inj] at hname
    exact hname ▸ List.getElem_mem hlt
  · rw [hroots.decls f (Array.mem_of_getElem? hf).val]
    refine rootsIn_eq_nil (fun e he heq => hnew ?_) roots
    rw [← heq]
    exact mem_listedNames_of_mem_declEntries he

/-- Two dumps that both list declarations of the file `a`.  The file `c` is not listed, but a position is in it. -/
def PackageDump.declaring : PackageDump where
  files := [{
    name := "a"
    decls := [.valueDecl [{ name := "x", obj := "x", pos := "1:5" }] [.literal .int "1" "b:1:9"]] }]
  objects := [{ key := "x", kind := .var }]

def PackageDump.referring : PackageDump where
  files := [{ name := "b", decls := [.assign [] [] true] },
    { name := "a", decls := [.unary "&" (.ident { name := "x", obj := "x", pos := "c:2:1" }) "1:20"] }]

/-- The program of both. -/
def Program.ofBoth : Program where
  files := #[⟨"a", [2, 5]⟩, ⟨"b", [3]⟩, ⟨"c", []⟩]
  nodes := #[⟨.ident "x" (some 0) true, ⟨0, 1, 5⟩, none⟩, ⟨.literal .int "1", ⟨1, 1, 9⟩, some 0⟩,
    ⟨.valueDecl [0] [1], ⟨0, 1, 5⟩, none⟩, ⟨.assign [] [] true, ⟨0, 0, 0⟩, none⟩,
    ⟨.ident "x" (some 0) false, ⟨2, 2, 1⟩, none⟩, ⟨.unary "&" 4, ⟨0, 1, 20⟩, none⟩]
  types := ⟨#[.basic "int"]⟩
  objects := #[⟨"x", "x", .var, none, none, none⟩]

theorem Program.transcribes_of_ofDumps_both :
    Program.ofDumps [.declaring, .referring] = .ok .ofBoth ∧
      ∃ roots, ofBoth.Transcribes [.declaring, .referring] roots := by
  have hrun : Program.ofDumps [.declaring, .referring] = .ok .ofBoth := by decide +kernel
  exact ⟨hrun, transcribes_of_ofDumps hrun⟩

end FluentChain
