import FluentChain.Check
import FluentChain.Proofs.Alike.Declared
import FluentChain.Proofs.Alike.Syntax
import FluentChain.Proofs.Alike.Walk
import FluentChain.Proofs.Merge.Order

/-!
# Checking dumps in either order

A dump with syntax and a dump without can be given in either order: both programs are alike, so a check fails on both
or finds the same (`checkDumps_swap`).
-/

namespace FluentChain

open Program

/-- The report on the program that some dumps describe. -/
def checkDumps (ds : List PackageDump) (manifest : Manifest) (verbose : Bool) : Except CheckFailure Report := do
  let p ← (Program.ofDumps ds).mapError .load
  p.check manifest verbose

theorem checkFiles_eq (view : FileView) (paths : List String) (manifest : Manifest) (verbose : Bool) :
    checkFiles view paths manifest verbose = (do
      let ds ← (paths.mapM (PackageDump.load view)).mapError .load
      checkDumps ds manifest verbose) := by
  unfold checkFiles checkDumps Program.load
  cases paths.mapM (PackageDump.load view) with
  | ok ds => rfl
  | error e => rfl

variable {N : FileNames} {p q : Program}

/-! ### Reports on programs that are alike -/

/-- A place is the same as one place only, if no file has two names. -/
theorem FileNames.samePlace_unique (hleft : (N.shared ++ N.left).Nodup) (hright : (N.shared ++ N.right).Nodup) :
    Relator.BiUnique N.SamePlace := by
  have hinj : ∀ {names : List String} {i j : Nat} {name : String}, names.Nodup → names[i]? = some name →
      names[j]? = some name → i = j := fun hnodup hi hj =>
    (List.getElem?_inj (List.getElem?_eq_some_iff.1 hi).1 hnodup).1 (hi.trans hj.symm)
  constructor
  · rintro ⟨file, line, col⟩ ⟨file', line', col'⟩ _ ⟨hline, hcol, name, ha, hc⟩ ⟨hline', hcol', name', hb, hc'⟩
    obtain rfl := Option.some.inj (hc.symm.trans hc')
    rw [Pos.mk.injEq]
    exact ⟨hinj hleft ha hb, hline.trans hline'.symm, hcol.trans hcol'.symm⟩
  · rintro _ ⟨file, line, col⟩ ⟨file', line', col'⟩ ⟨hline, hcol, name, hc, ha⟩ ⟨hline', hcol', name', hc', hb⟩
    obtain rfl := Option.some.inj (hc.symm.trans hc')
    rw [Pos.mk.injEq]
    exact ⟨hinj hright ha hb, hline.symm.trans hline', hcol.symm.trans hcol'⟩

theorem SameDiagnostics.report {ds ds' : Diagnostics} (hds : SameDiagnostics N.SamePlace ds ds') (h : Alike N p q)
    (hplace : ∀ n ∈ ds.checked, N.SamePlace (p.pos n) (q.pos n)) (verbose : Bool) :
    ds.report p verbose = ds'.report q verbose := by
  have hsorted : ds.sorted p = ds'.sorted q := by
    have hprecedes : Diagnostics.precedes p = Diagnostics.precedes q := by
      funext a b
      simp only [Diagnostics.precedes, h.pos]
    rw [Diagnostics.sorted, Diagnostics.sorted, hprecedes, hds.checked]
  unfold Diagnostics.report
  rw [← hsorted]
  congr 1
  refine List.map_congr_left fun n hn => ?_
  have hlocation := (hplace n ((List.mergeSort_perm _ _).mem_iff.1 hn)).display h
  have hmessages := map_eq_of_forall₂ (hds.foundAt n) fun _ _ hd => (hd.message h).symm
  rw [hlocation, hmessages]

theorem decls_eq_nil (h : Alike N p q) (hN : N.shared = []) : p.decls = [] := by
  obtain ⟨fs, hfs, hp, -⟩ := h.files
  obtain rfl := List.map_eq_nil_iff.1 (hfs.trans hN)
  rw [Program.decls, hp]
  simp

theorem diagnose_of_decls (r : RoleTable) (hp : p.decls = []) : p.diagnose r = .ok {} := by
  have hrun : Walk.program p r {} = .ok {} {} := by
    rw [Walk.program, hp]
    rfl
  rw [diagnose, hrun]

/-- The walks fail in both programs, or they examine the same expressions, all of them at the same places. -/
theorem diagnose_alike (h : Alike N p q) (hunique : Relator.BiUnique N.SamePlace) {r r' : RoleTable}
    (hr : RoleTable.Alike p q r r') :
    EndTogether (fun ds ds' => SameDiagnostics N.SamePlace ds ds' ∧ ∀ n ∈ ds.checked, N.SamePlace (p.pos n) (q.pos n))
      (fun _ _ => True) (p.diagnose r) (q.diagnose r') := by
  rcases Nat.eq_zero_or_pos N.shared.length with hN | hN
  · -- without syntax there is nothing to examine
    have hp := decls_eq_nil h (List.length_eq_zero_iff.1 hN)
    rw [diagnose_of_decls r hp, diagnose_of_decls r' (h.decls ▸ hp)]
    exact .ok ⟨⟨rfl, .nil⟩, by simp⟩
  · have hwalk := Walk.together_program ⟨h, hr, hunique, hN⟩ {} {} ⟨.nil, rfl, .nil⟩
    unfold diagnose
    revert hwalk
    generalize Walk.program p r {} = x, Walk.program q r' {} = y
    rintro (⟨hs, -⟩ | _)
    · exact .ok ⟨hs.diagnostics, fun n _ => h.samePlace hN n⟩
    · exact .error trivial

/-- A check fails on both of two programs that are alike, or has the same report on them. -/
theorem check_alike (h : Alike N p q) (hmethods : p.SameMethods q) (hunique : Relator.BiUnique N.SamePlace)
    (manifest : Manifest) (verbose : Bool) :
    EndTogether Eq (fun _ _ => True) (p.check manifest verbose) (q.check manifest verbose) := by
  refine ((RoleTable.discover_alike h hmethods manifest).mapError fun _ _ _ => trivial).bind fun r r' hr => ?_
  refine ((diagnose_alike h hunique hr).mapError fun _ _ _ => trivial).bind fun ds ds' ⟨hds, hplace⟩ => ?_
  exact .ok (hds.report h hplace verbose)

/-! ### Two dumps -/

variable {P S : PackageDump}

theorem filesOf_pair (hfiles : S.files = []) : filesOf [P, S] = P.files ∧ filesOf [S, P] = P.files := by
  simp [filesOf, hfiles]

/-- A name has one position, if only one of the dumps gives it any. -/
theorem placeIn_swap (hplaces : ∀ T ∈ P.types, ∀ T' ∈ S.types, T.name = T'.name → T.pos = none ∨ T'.pos = none)
    (name : String) : placeIn (typesOf [P, S]) name = placeIn (typesOf [S, P]) name := by
  have hpair : ∀ P S : PackageDump,
      placeIn (typesOf [P, S]) name = (placeIn P.types name).or (placeIn S.types name) := by
    intro P S
    simp [placeIn, typesOf, List.findSome?_append]
  have hsome : ∀ {types : List TypeDump} {text : String}, placeIn types name = some text →
      ∃ type ∈ types, type.name = name ∧ type.pos = some text := by
    intro types text h
    obtain ⟨type, htype, hpos⟩ := List.exists_of_findSome?_eq_some h
    exact ⟨type, htype, by simpa using hpos⟩
  rw [hpair, hpair]
  cases hP : placeIn P.types name with
  | none => simp
  | some text =>
    cases hS : placeIn S.types name with
    | none => simp
    | some text' =>
      obtain ⟨T, hT, hname, hpos⟩ := hsome hP
      obtain ⟨T', hT', hname', hpos'⟩ := hsome hS
      simpa [hpos, hpos'] using hplaces T hT T' hT' (hname.trans hname'.symm)

theorem methods_eq_declOf {t : TypeTable} (ht : t.WellFormed) {a : TypeId} {d : NamedType}
    (ha : t.get? a = some (.named d)) : t.declOf d.name = d := by
  simp [TypeTable.declOf, (TypeTable.named?_eq_some_iff ht).2 (.declared ha), TypeTable.decl?, ha]

theorem mem_methods_iff (hunique : ∀ {a b : ObjId} {key : String}, p.key? a = some key → p.key? b = some key → a = b)
    {methods : List ObjId} {o : ObjId} {key : String} (ho : p.key? o = some key) :
    o ∈ methods ↔ some key ∈ methods.map p.key? := by
  rw [List.mem_map]
  constructor
  · exact fun hmem => ⟨o, hmem, ho⟩
  · rintro ⟨other, hmem, hother⟩
    rwa [hunique ho hother]

theorem sameMethods_of_merges {ds ds' : List PackageDump} (hperm : ds.Perm ds') (h : Alike N p q)
    (hp : ∃ files p', Merges ds files p' p) (hq : ∃ files q', Merges ds' files q' q) : p.SameMethods q := by
  obtain ⟨_, _, hp⟩ := hp
  obtain ⟨_, _, hq⟩ := hq
  intro a b d d' ha hb hname o o' ⟨key, ho, ho'⟩
  have hkeys := hp.methodKeys_eq d.name
  have hkeys' := hq.methodKeys_eq d'.name
  rw [Program.methodKeys, methods_eq_declOf h.types.left ha] at hkeys
  rw [Program.methodKeys, methods_eq_declOf h.types.right hb, ← hname] at hkeys'
  rw [mem_methods_iff h.left_unique ho, mem_methods_iff h.right_unique ho', hkeys, hkeys']
  exact (((itemsOf_perm hperm).filterMap _).map _).mem_iff

/-- Both orders give programs that are alike. -/
theorem alike_of_ofDumps (hfiles : S.files = [])
    (hplaces : ∀ T ∈ P.types, ∀ T' ∈ S.types, T.name = T'.name → T.pos = none ∨ T'.pos = none)
    (hlisted : ∀ f ∈ P.files, ∀ x ∈ f.mentions, x.Listed (P.files.map (·.name)))
    (hp : Program.ofDumps [P, S] = .ok p) (hq : Program.ofDumps [S, P] = .ok q) :
    ∃ N, Alike N p q ∧ Relator.BiUnique N.SamePlace ∧ p.SameMethods q := by
  have hperm : [P, S].Perm [S, P] := .swap _ _ _
  obtain ⟨hPS, hSP⟩ := filesOf_pair (P := P) hfiles
  obtain ⟨p₀, p₁, hstage, hadded⟩ := Build.Stage.exists_of_ok hp
  obtain ⟨q₀, q₁, hstage', hadded'⟩ := Build.Stage.exists_of_ok hq
  -- the files are registered in the same order
  have hregistered := hstage.registered
  have hregistered' := hstage'.registered
  rw [hPS] at hregistered hadded
  rw [hSP] at hregistered' hadded'
  obtain rfl : p₀ = q₀ := by
    rw [hregistered] at hregistered'
    cases hregistered'
    rfl
  obtain ⟨hdeclarable, hdescribes⟩ := hstage.describes
  obtain ⟨-, hdescribes'⟩ := hstage'.describes
  obtain ⟨left, hleft⟩ := hdescribes.files
  obtain ⟨right, hright⟩ := hdescribes'.files
  have halike : Alike ⟨p₀.fileNames, left, right⟩ p₁ q₁ :=
    alike_of_describes hdescribes hdescribes' hleft.symm hright.symm hstage.syntaxOf_eq hstage'.syntaxOf_eq
      (typesOf_perm hperm) (itemsOf_perm hperm) hdeclarable.items (placeIn_swap hplaces)
  have hnames : ∀ f ∈ P.files, f.name ∈ p₀.fileNames := fun f hf => hstage.mem_fileNames (hPS ▸ hf)
  have hmentions : ∀ f ∈ P.files, ∀ x ∈ f.mentions, x.Listed p₀.fileNames := fun f hf x hx =>
    (hlisted f hf x hx).mono (List.forall_mem_map.2 hnames)
  have hrun := Build.together_filesOf (N := ⟨p₀.fileNames, left, right⟩) hnames hmentions p₁ q₁ halike
  rw [hadded, hadded'] at hrun
  cases hrun with
  | ok h =>
    obtain ⟨h, -⟩ := h
    exact ⟨_, h, FileNames.samePlace_unique (hleft ▸ hdescribes.ready.nodup) (hright ▸ hdescribes'.ready.nodup),
      sameMethods_of_merges hperm h (merges_of_ofDumps hp).2 (merges_of_ofDumps hq).2⟩

/-- A dump with syntax and one without can be checked in either order: both checks fail, or both reports are the
same. -/
theorem checkDumps_swap (hfiles : S.files = [])
    (hplaces : ∀ T ∈ P.types, ∀ T' ∈ S.types, T.name = T'.name → T.pos = none ∨ T'.pos = none)
    (hlisted : ∀ f ∈ P.files, ∀ x ∈ f.mentions, x.Listed (P.files.map (·.name))) (manifest : Manifest)
    (verbose : Bool) :
    (checkDumps [P, S] manifest verbose).toOption = (checkDumps [S, P] manifest verbose).toOption := by
  have hperm : [P, S].Perm [S, P] := .swap _ _ _
  have hiff : (∃ p, Program.ofDumps [P, S] = .ok p) ↔ ∃ q, Program.ofDumps [S, P] = .ok q := by
    rw [exists_ofDumps_iff, exists_ofDumps_iff]
    exact ⟨Mergeable.perm hperm, Mergeable.perm hperm.symm⟩
  unfold checkDumps
  cases hp : Program.ofDumps [P, S] with
  | error e =>
    cases hq : Program.ofDumps [S, P] with
    | error e' => rfl
    | ok q =>
      obtain ⟨p, hp'⟩ := hiff.2 ⟨q, hq⟩
      exact absurd (hp.symm.trans hp') (by simp)
  | ok p =>
    obtain ⟨q, hq⟩ := hiff.1 ⟨p, hp⟩
    obtain ⟨N, h, hunique, hmethods⟩ := alike_of_ofDumps hfiles hplaces hlisted hp hq
    have hcheck := check_alike h hmethods hunique manifest verbose
    rw [hq]
    show (p.check manifest verbose).toOption = (q.check manifest verbose).toOption
    revert hcheck
    generalize p.check manifest verbose = x, q.check manifest verbose = y
    rintro (rfl | _) <;> rfl

/-- A dump with syntax, and a dump of a library that it uses. -/
def PackageDump.application : PackageDump where
  files := PackageDump.sample.files
  types := [{ name := "User", pos := "model:1:6", fields := some [{ name := "Home", type := "Address" }] }]
  objects := [{ key := "q", kind := .var, type := "Query" }]

def PackageDump.library : PackageDump where
  types := [
    { name := "Query", methods := [
      { name := "From", params := ["User"], results := ["Query"] },
      { name := "In", params := ["Name"], results := ["Query"] },
      { name := "Pick", params := ["Name"], results := ["Query"] }] },
    { name := "Address", pos := "library:2:6", fields := some [{ name := "City", type := "Name" }] },
    { name := "Name", underlying := "string" }]
  objects := [{ key := "offsetof", kind := .builtin }]

def Manifest.ofLibrary : Manifest where
  builder := "Query"
  fieldSelection := "Name"
  fieldOffset := "offsetof"
  chainSources := ["Query"]
  methods := [⟨"Query", "From", .entry⟩, ⟨"Query", "In", .descend⟩]

theorem checkDumps_swap_library :
    PackageDump.library.files = [] ∧
      (∀ T ∈ PackageDump.application.types, ∀ T' ∈ PackageDump.library.types, T.name = T'.name →
        T.pos = none ∨ T'.pos = none) ∧
      (∀ f ∈ PackageDump.application.files, ∀ x ∈ f.mentions,
        x.Listed (PackageDump.application.files.map (·.name))) ∧
      (checkDumps [.application, .library] .ofLibrary true).toOption.isSome ∧
      (checkDumps [.application, .library] .ofLibrary true).toOption =
        (checkDumps [.library, .application] .ofLibrary true).toOption := by
  have hplaces : ∀ T ∈ PackageDump.application.types, ∀ T' ∈ PackageDump.library.types, T.name = T'.name →
      T.pos = none ∨ T'.pos = none := by decide
  have hlisted : ∀ f ∈ PackageDump.application.files, ∀ x ∈ f.mentions,
      x.Listed (PackageDump.application.files.map (·.name)) := by decide +kernel
  exact ⟨rfl, hplaces, hlisted, by decide +kernel, checkDumps_swap rfl hplaces hlisted .ofLibrary true⟩

end FluentChain
