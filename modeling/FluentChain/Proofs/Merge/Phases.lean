import FluentChain.Proofs.Merge.Declarations
import FluentChain.Proofs.Syntax.Lowered

/-!
# The phases of a merge

Dumps are merged kind by kind: files, names, definitions, methods, symbols, and then the syntax.  Up to the syntax
this succeeds exactly if the items of all dumps fit together, and then the program says what they say
(`decides_declarations`).
-/

namespace FluentChain

def typesOf (ds : List PackageDump) : List TypeDump := ds.flatMap (·.types)

def filesOf (ds : List PackageDump) : List FileDump := ds.flatMap (·.files)

/-- The items of dumps, kind by kind. -/
def itemsOf (ds : List PackageDump) : List Item :=
  (typesOf ds).map .definition ++ (typesOf ds).flatMap (fun type => type.methods.map (.method type.name))
    ++ (ds.flatMap (·.objects)).map .object

/-- Dumps whose types and symbols fit together. -/
structure Declarable (ds : List PackageDump) : Prop where
  places : ∀ type ∈ typesOf ds, ∀ s ∈ type.pos, IsPlace s
  items : Consistent (typesOf ds) (itemsOf ds)

theorem name_mem_declaredNames {types : List TypeDump} {type : TypeDump} (h : type ∈ types) :
    type.name ∈ declaredNames types := List.mem_map_of_mem h

section

variable {ds ds' : List PackageDump} (hperm : ds.Perm ds')

include hperm

theorem typesOf_perm : (typesOf ds).Perm (typesOf ds') := hperm.flatMap_right _

theorem filesOf_perm : (filesOf ds).Perm (filesOf ds') := hperm.flatMap_right _

theorem itemsOf_perm : (itemsOf ds).Perm (itemsOf ds') :=
  (((typesOf_perm hperm).map _).append ((typesOf_perm hperm).flatMap_right _)).append
    ((hperm.flatMap_right _).map _)

/-- Which names are declared does not depend on the order of the dumps. -/
theorem mem_declaredNames_perm (name : String) :
    name ∈ declaredNames (typesOf ds) ↔ name ∈ declaredNames (typesOf ds') :=
  ((typesOf_perm hperm).map _).mem_iff

/-- Whether dumps fit together does not depend on their order. -/
theorem Declarable.perm (h : Declarable ds) : Declarable ds' where
  places type htype := h.places type ((typesOf_perm hperm).mem_iff.2 htype)
  items := h.items.perm (itemsOf_perm hperm) (typesOf_perm hperm)

end

namespace Build

variable {files : List String} {types : List TypeDump} {items : List Item}

/-- The first phase. -/
def registerFiles (fs : List FileDump) : Build Unit := fs.forM fun f => do let _ ← file f.name

/-- The phases from the names to the symbols. -/
def declarations (ds : List PackageDump) : Build Unit := do
  (typesOf ds).forM declareTypeOf
  (typesOf ds).forM defineType
  (typesOf ds).forM methodsOf
  (ds.flatMap (·.objects)).forM declareObject

/-- A merge is three runs: it registers the files, then it declares types and symbols, and only then it adds syntax. -/
theorem dumps_eq (ds : List PackageDump) :
    dumps ds = (do
      registerFiles (filesOf ds)
      declarations ds
      (filesOf ds).forM declsOf) := by
  simp only [dumps, registerFiles, declarations, bind_assoc, typesOf, filesOf]

/-- All files are registered. -/
theorem decides_files (fs : List FileDump) :
    Decides (fun p => p = {}) (registerFiles fs) True fun _ p =>
      Describes p.fileNames [] [] [] p ∧ ∀ f ∈ fs, f.name ∈ p.fileNames := by
  have hround : ∀ before, ∀ f ∈ fs, Decides
      (fun p => Describes p.fileNames [] [] [] p ∧ ∀ f ∈ before, f.name ∈ p.fileNames)
      (do let _ ← file f.name) True
      fun _ p => Describes p.fileNames [] [] [] p ∧ ∀ g ∈ before ++ [f], g.name ∈ p.fileNames := by
    intro before f _
    refine Decides.of_forall fun p ⟨hp, hbefore⟩ => ?_
    refine Decides.bind_total (adds_file f.name hp.ready) fun _ id => Decides.pure ?_
    rintro q ⟨hq, hid⟩
    refine ⟨{ hp.grow hq with files := List.prefix_refl _ }, fun g hg => ?_⟩
    rcases List.mem_append.1 hg with hg | hg
    · exact hq.files.subset (hbefore g hg)
    · rw [List.mem_singleton.1 hg]
      exact List.mem_of_getElem? hid
  have hempty : Describes [] [] [] [] {} := by
    have hget : ∀ id, ({} : TypeTable).get? id = none := by simp [TypeTable.get?]
    refine describes_names ⟨by simp [hget], by simp [hget], by simp [hget]⟩ List.nodup_nil (List.prefix_refl _) rfl ?_
      (by simp [hget])
    intro e
    refine iff_of_false ?_ (by simp [declaredNames])
    rintro ⟨id, hid⟩
    obtain ⟨ty, hty⟩ := hid.get?
    simp [hget] at hty
  refine ((Decides.forM_each hround []).weaken ?_ fun _ _ h => h).congr (by simp)
  rintro p rfl
  exact ⟨hempty, by simp⟩

/-- The phases before the syntax succeed exactly if the types and symbols of all dumps fit together, and leave a program
that says what they say. -/
theorem decides_declarations (ds : List PackageDump) :
    Decides (Describes files [] [] []) (declarations ds) (Declarable ds)
      fun _ => Describes files (typesOf ds) (itemsOf ds) [] := by
  have hnames : Decides (Describes files [] [] []) ((typesOf ds).forM declareTypeOf)
      (∀ type ∈ typesOf ds, ∀ s ∈ type.pos, IsPlace s) fun _ => Describes files (typesOf ds) [] [] :=
    Decides.forM_each (J := fun types => Describes files types [] [])
      (fun before type _ => decides_declareTypeOf type) []
  have hdefinitions : Decides (Describes files (typesOf ds) [] []) ((typesOf ds).forM defineType)
      (Consistent (typesOf ds) ((typesOf ds).map .definition))
      fun _ => Describes files (typesOf ds) ((typesOf ds).map .definition) [] := by
    rw [List.map_eq_flatMap]
    exact Decides.forM (J := fun items => Describes files (typesOf ds) items []) (fun _ _ => Consistent.of_append)
      (fun before type htype hbefore => decides_defineType hbefore (name_mem_declaredNames htype)) (Consistent.nil _)
  have hmethods : ∀ items, Consistent (typesOf ds) items → Decides (Describes files (typesOf ds) items [])
      ((typesOf ds).forM methodsOf)
      (Consistent (typesOf ds) (items ++ (typesOf ds).flatMap fun type => type.methods.map (.method type.name)))
      fun _ => Describes files (typesOf ds)
        (items ++ (typesOf ds).flatMap fun type => type.methods.map (.method type.name)) [] := by
    intro items hitems
    exact Decides.forM (J := fun items => Describes files (typesOf ds) items []) (fun _ _ => Consistent.of_append)
      (fun before type htype hbefore => decides_methodsOf hbefore (name_mem_declaredNames htype)) hitems
  have hobjects : ∀ items, Consistent (typesOf ds) items → Decides (Describes files (typesOf ds) items [])
      ((ds.flatMap (·.objects)).forM declareObject)
      (Consistent (typesOf ds) (items ++ (ds.flatMap (·.objects)).map .object))
      fun _ => Describes files (typesOf ds) (items ++ (ds.flatMap (·.objects)).map .object) [] := by
    intro items hitems
    rw [List.map_eq_flatMap]
    exact Decides.forM (J := fun items => Describes files (typesOf ds) items []) (fun _ _ => Consistent.of_append)
      (fun before d _ hbefore => decides_declareObject hbefore d) hitems
  refine (Decides.bind hnames fun _ _ => Decides.bind hdefinitions fun hd _ =>
    Decides.bind (hmethods _ hd) fun hm _ => hobjects _ hm).congr ?_
  constructor
  · rintro ⟨hplaces, -, -, hitems⟩
    exact ⟨hplaces, hitems⟩
  · rintro ⟨hplaces, hitems⟩
    exact ⟨hplaces, hitems.of_append.of_append, hitems.of_append, hitems⟩

/-! ### Before the syntax -/

theorem bare_registerFiles (fs : List FileDump) : Bare (registerFiles fs) :=
  Bare.forM _ fun f => Bare.bind (bare_file f.name) fun _ => Bare.pure _

/-- Declaring types and symbols adds no syntax. -/
theorem bare_declarations (ds : List PackageDump) : Bare (declarations ds) :=
  Bare.bind (Bare.forM _ bare_declareTypeOf) fun _ => Bare.bind (Bare.forM _ bare_defineType) fun _ =>
    Bare.bind (Bare.forM _ bare_methodsOf) fun _ => Bare.forM _ bare_declareObject

/-- The state of a merge before its syntax is added. -/
structure Stage (ds : List PackageDump) (p₀ p : Program) : Prop where
  registered : registerFiles (filesOf ds) {} = .ok ⟨⟩ p₀
  declared : declarations ds p₀ = .ok ⟨⟩ p

namespace Stage

variable {ds : List PackageDump} {p₀ p q : Program}

/-- A merge that succeeds has passed the stage before its syntax. -/
theorem exists_of_ok (h : Program.ofDumps ds = .ok q) :
    ∃ p₀ p, Stage ds p₀ p ∧ (filesOf ds).forM declsOf p = .ok ⟨⟩ q := by
  have hrun := Program.ofDumps_eq_ok_iff.1 h
  rw [dumps_eq] at hrun
  obtain ⟨_, p₀, hfiles, hrest⟩ := bind_eq_ok.1 hrun
  obtain ⟨_, p, hdeclared, hadded⟩ := bind_eq_ok.1 hrest
  exact ⟨p₀, p, ⟨hfiles, hdeclared⟩, hadded⟩

variable (h : Stage ds p₀ p)

include h

/-- At this stage the dumps fit together, and the program says what their types and symbols say. -/
theorem describes : Declarable ds ∧ Describes p₀.fileNames (typesOf ds) (itemsOf ds) [] p :=
  (decides_declarations ds).of_ok ((decides_files (filesOf ds)).of_ok rfl h.registered).2.1 h.declared

theorem mem_fileNames {f : FileDump} (hf : f ∈ filesOf ds) : f.name ∈ p₀.fileNames :=
  ((decides_files (filesOf ds)).of_ok rfl h.registered).2.2 f hf

/-- At this stage there is no syntax. -/
theorem syntaxOf_eq : p.syntaxOf = ([], []) :=
  have hregistered := (bare_registerFiles (filesOf ds) ([], []) 0).of_ok ⟨rfl, Nat.zero_le _⟩ h.registered
  ((bare_declarations ds ([], []) 0).of_ok hregistered h.declared).1

end Stage

end Build

end FluentChain
