import FluentChain.Proofs.Build.Safe
import FluentChain.Proofs.Merge.Phases

/-!
# Programs from dumps, in range

Merging dumps is made of steps that keep a program well-formed, so a program that dumps describe is well-formed,
positions included (`Program.wellFormed_of_ofDumps`): a position names a file that has been registered, and a node
without a position of its own takes that of a child, or the very first one, which is in range as there is a file.
-/

namespace FluentChain

namespace Build

variable {placed : Bool} {p : Program}

/-! ### Declarations -/

theorem safe_position? (text : Option String) :
    Safe placed p (position? text) fun pos q => ∀ place ∈ pos, place.InRange (q.bounds placed) :=
  Safe.option_mapM fun text _ => safe_position text (by simp)

/-- A field that is read has a type of the table, and stands in a file if it has a position. -/
theorem safe_field (f : FieldDump) :
    Safe placed p (field f) fun g q => g.type < q.types.size ∧ ∀ pos ∈ g.pos, pos.InRange (q.bounds placed) :=
  Safe.bind (safe_position? f.pos) fun _ _ _ _ hpos =>
    Safe.bind (safe_parseType f.type) fun _ _ _ hr htype =>
      Safe.pure fun _ => ⟨htype, fun place hplace => (hpos place hplace).mono hr.le⟩

theorem safe_defineType (type : TypeDump) : Safe placed p (defineType type) fun _ _ => True := by
  refine Safe.bind (safe_declareType type.name (by simp)) fun named q _ _ _ => ?_
  split
  · rename_i fields _ _
    refine Safe.bind (Safe.mapM ?_ fun f _ r _ _ => safe_field f) fun found r _ _ hfound => ?_
    · exact fun g _ _ hr hg => ⟨hr.type_lt hg.1, fun pos hpos => (hg.2 pos hpos).mono hr.le⟩
    · exact safe_defineStruct named (fun g hg => (hfound g hg).1) fun g hg => (hfound g hg).2
  · exact Safe.bind (safe_parseType _) fun underlying r _ _ h => safe_setUnderlying named h
  · exact Safe.pure fun _ => trivial

theorem safe_params (owner : String) (texts : List String) :
    Safe placed p (params owner texts) fun found q => ∀ c ∈ found.1, c < q.types.size := by
  induction texts generalizing p with
  | nil => exact Safe.pure fun _ => by simp
  | cons text rest ih =>
    unfold params
    dsimp only
    split
    · split
      · refine Safe.bind (safe_parseType _) fun elem q _ _ helem => ?_
        refine Safe.bind (safe_intern trivial (by simpa [Ty.components] using helem)) fun id r _ _ hid => ?_
        exact Safe.pure fun _ => by simpa using hid
      · exact Safe.throw
    · refine Safe.bind (safe_parseType _) fun id q _ _ hid => Safe.bind ih fun found r _ hr hfound => ?_
      exact Safe.pure fun _ => by simpa using ⟨hr.type_lt hid, hfound⟩

/-- The type of a signature is in the table, whatever its texts are. -/
theorem safe_signatureType (owner : String) (paramTexts resultTexts : List String) :
    Safe placed p (signatureType owner paramTexts resultTexts) fun id q => id < q.types.size := by
  refine Safe.bind (safe_params owner paramTexts) fun found q _ _ hfound => ?_
  have hresults : Safe placed q (resultTexts.mapM parseType) fun results r => ∀ c ∈ results, c < r.types.size :=
    Safe.mapM (S := fun c r => c < r.types.size) (fun _ _ _ hr h => hr.type_lt h)
      fun text _ _ _ _ => safe_parseType text
  refine Safe.bind hresults fun results r _ hr hresults => safe_signature fun c hc => ?_
  rcases List.mem_append.1 hc with hc | hc
  · exact hr.type_lt (hfound c hc)
  · exact hresults c hc

/-- A method may be declared on any type of the table. -/
theorem safe_methodOf {named : TypeId} (hnamed : named < p.types.size) (owner : String) (m : MethodDump) :
    Safe placed p (methodOf named owner m) fun _ _ => True := by
  have hrest : ∀ {q : Program} {recv : TypeId}, recv < q.types.size → Safe placed q (do
      let sig ← signatureType (owner ++ "." ++ m.name) m.params m.results
      let _ ← method recv m.name sig) fun _ _ => True := fun hrecv =>
    Safe.bind (safe_signatureType _ _ _) fun sig r _ hr hsig =>
      Safe.bind (safe_method m.name (hr.type_lt hrecv) hsig) fun _ _ _ _ _ => Safe.pure fun _ => trivial
  unfold methodOf
  split
  · exact Safe.bind (safe_intern trivial (by simpa [Ty.components] using hnamed)) fun recv q _ _ hrecv => hrest hrecv
  · exact hrest hnamed

theorem safe_methodsOf (type : TypeDump) : Safe placed p (methodsOf type) fun _ _ => True :=
  Safe.bind (safe_declareType type.name (by simp)) fun named q _ _ hnamed =>
    Safe.forM fun m _ r _ hr => safe_methodOf (hr.type_lt hnamed) type.name m

theorem safe_declareObject (obj : ObjectDump) : Safe placed p (declareObject obj) fun _ _ => True := by
  have hrest : ∀ {q : Program} {type : Option TypeId}, (∀ id ∈ type, id < q.types.size) → Safe placed q (do
      let pos ← position? obj.pos
      let _ ← object ⟨obj.key, obj.name.getD (nameOfKey obj.key), obj.kind, type, none, pos⟩) fun _ _ => True := by
    intro q type htype
    refine Safe.bind (safe_position? obj.pos) fun pos r _ hr hpos => ?_
    refine Safe.bind (safe_object ⟨fun id hid => hr.type_lt (htype id hid), by simp, hpos⟩) fun _ _ _ _ _ => ?_
    exact Safe.pure fun _ => trivial
  unfold declareObject
  split
  · exact Safe.bind (Safe.map (R := fun type q => ∀ id ∈ type, id < q.types.size)
      ((safe_signatureType _ _ _).weaken fun _ _ _ _ hid => by simpa using hid)) fun type q _ _ htype => hrest htype
  · exact Safe.bind (Safe.map (R := fun type q => ∀ id ∈ type, id < q.types.size)
      ((safe_parseType _).weaken fun _ _ _ _ hid => by simpa using hid)) fun type q _ _ htype => hrest htype
  · exact hrest (by simp)

theorem safe_declareTypeOf (type : TypeDump) : Safe placed p (declareTypeOf type) fun _ _ => True :=
  Safe.bind (safe_position? type.pos) fun _ _ _ _ hpos =>
    Safe.bind (safe_declareType type.name hpos) fun _ _ _ _ _ => Safe.pure fun _ => trivial

/-! ### Syntax -/

theorem safe_withType {n : NodeId} (hn : n < p.nodes.size) (type : Option String) :
    Safe placed p (withType n type) fun m q => m < q.nodes.size := by
  cases type with
  | none => exact Safe.pure fun _ => hn
  | some text =>
    exact Safe.bind (safe_parseType text) fun type q _ hq htype =>
      Safe.bind (safe_setType n htype) fun _ r _ hr _ => Safe.pure fun _ => hr.node_lt (hq.node_lt hn)

/-- A symbol that is found is a symbol of the program. -/
theorem safe_symbol (key : String) : Safe placed p (symbol key) fun o q => o < q.objects.size := by
  refine Safe.get_bind ?_
  split
  · rename_i o ho
    exact Safe.pure fun _ => (Array.findIdx?_eq_some_iff_getElem.1 ho).1
  · exact Safe.throw

section

variable {file : FileId}

/-- A position without a file name is in the file that is being read. -/
theorem safe_positionIn (hfile : p.FileInRange placed file) (text : String) :
    Safe placed p (position text (some file)) fun pos q => pos.InRange (q.bounds placed) := by
  refine safe_position text ?_
  rintro _ ⟨⟩
  exact hfile

theorem safe_identNode (hfile : p.FileInRange placed file) (i : IdentDump) (isDef : Bool) :
    Safe placed p (identNode file i isDef) fun n q => n < q.nodes.size := by
  refine Safe.bind (Safe.option_mapM fun key _ => safe_symbol key) fun obj q _ hq hobj => ?_
  refine Safe.bind (safe_positionIn (hfile.mono hq) i.pos) fun pos r _ hr hpos => ?_
  refine Safe.bind (safe_ident i.name isDef ?_ hpos) fun n _ _ _ hn => safe_withType hn i.type
  exact fun o ho => hr.object_lt (hobj o ho)

/-- Where there is a file the very first position is in range. -/
theorem default_inRange (hfile : p.FileInRange placed file) : (default : Pos).InRange (p.bounds placed) :=
  fun n hn => Nat.lt_of_le_of_lt (Nat.zero_le file) (hfile 0 0 n hn)

mutual

/-- Adding a tree is safe, by recursion on the tree, and gives the node of its root. -/
theorem safe_tree : ∀ (node : NodeDump) {p : Program}, p.FileInRange placed file →
    Safe placed p (tree file node) fun n q => n < q.nodes.size
  | .ident i, p, hfile => by
    rw [tree]
    exact safe_identNode hfile i _
  | .selector x sel type, p, hfile => by
    rw [tree]
    refine Safe.bind (safe_tree x hfile) fun x q _ hq hx => ?_
    refine Safe.bind (safe_identNode (hfile.mono hq) sel _) fun sel r _ hr hsel => ?_
    exact Safe.bind (safe_selector (hr.node_lt hx) hsel) fun n _ _ _ hn => safe_withType hn type
  | .call callee args spread type, p, hfile => by
    rw [tree]
    refine Safe.bind (safe_tree callee hfile) fun callee q _ hq hcallee => ?_
    refine Safe.bind (safe_trees args (hfile.mono hq)) fun args r _ hr hargs => ?_
    exact Safe.bind (safe_call spread (hr.node_lt hcallee) hargs) fun n _ _ _ hn => safe_withType hn type
  | .composite type elts pos, p, hfile => by
    rw [tree]
    refine Safe.bind (safe_parseType type) fun type q _ hq htype => ?_
    refine Safe.bind (safe_trees elts (hfile.mono hq)) fun elts r _ hr helts => ?_
    refine Safe.bind (safe_positionIn ((hfile.mono hq).mono hr) pos) fun pos s _ hs hpos => ?_
    refine safe_composite ?_ (fun e he => hs.node_lt (helts e he)) hpos
    rintro _ ⟨⟩
    exact hs.type_lt (hr.type_lt htype)
  | .keyValue key value, p, hfile => by
    rw [tree]
    refine Safe.bind (safe_tree key hfile) fun key q _ hq hkey => ?_
    refine Safe.bind (safe_tree value (hfile.mono hq)) fun value r _ hr hvalue => ?_
    exact safe_keyValue (hr.node_lt hkey) hvalue
  | .literal kind raw pos, p, hfile => by
    rw [tree]
    exact Safe.bind (safe_positionIn hfile pos) fun pos q _ _ hpos => safe_literal kind raw hpos
  | .unary op x pos, p, hfile => by
    rw [tree]
    refine Safe.bind (safe_tree x hfile) fun x q _ hq hx => ?_
    refine Safe.bind (safe_positionIn (hfile.mono hq) pos) fun pos r _ hr hpos => ?_
    exact safe_unary op (hr.node_lt hx) hpos
  | .block stmts pos, p, hfile => by
    rw [tree]
    refine Safe.bind (safe_trees stmts hfile) fun stmts q _ hq hstmts => ?_
    refine Safe.bind (safe_positionIn (hfile.mono hq) pos) fun pos r _ hr hpos => ?_
    exact safe_block (fun s hs => hr.node_lt (hstmts s hs)) hpos
  | .assign lhs rhs define, p, hfile => by
    rw [tree]
    refine Safe.bind (safe_trees lhs hfile) fun lhs q _ hq hlhs => ?_
    refine Safe.bind (safe_trees rhs (hfile.mono hq)) fun rhs r _ hr hrhs => safe_assign define ?_ ?_
    · exact List.forall_mem_append.2 ⟨fun n hn => hr.node_lt (hlhs n hn), hrhs⟩
    · exact default_inRange ((hfile.mono hq).mono hr)
  | .valueDecl names values, p, hfile => by
    rw [tree]
    have hnames : Safe placed p (names.mapM (identNode file · true)) fun ns q => ∀ n ∈ ns, n < q.nodes.size :=
      Safe.mapM (S := fun n q => n < q.nodes.size) (fun _ _ _ hr h => hr.node_lt h) fun i _ q _ hq =>
        safe_identNode (hfile.mono hq) i true
    refine Safe.bind hnames fun names q _ hq hnames => ?_
    refine Safe.bind (safe_trees values (hfile.mono hq)) fun values r _ hr hvalues => safe_valueDecl ?_ ?_
    · exact List.forall_mem_append.2 ⟨fun n hn => hr.node_lt (hnames n hn), hvalues⟩
    · exact default_inRange ((hfile.mono hq).mono hr)
  | .other label children pos, p, hfile => by
    rw [tree]
    refine Safe.bind (safe_trees children hfile) fun children q _ hq hchildren => ?_
    refine Safe.bind (safe_positionIn (hfile.mono hq) pos) fun pos r _ hr hpos => ?_
    exact safe_other label (fun c hc => hr.node_lt (hchildren c hc)) hpos

theorem safe_trees : ∀ (nodes : List NodeDump) {p : Program}, p.FileInRange placed file →
    Safe placed p (trees file nodes) fun ns q => ∀ n ∈ ns, n < q.nodes.size
  | [], p, _ => by
    rw [trees]
    exact Safe.pure fun _ => by simp
  | node :: rest, p, hfile => by
    rw [trees]
    refine Safe.bind (safe_tree node hfile) fun n q _ hq hn => ?_
    refine Safe.bind (safe_trees rest (hfile.mono hq)) fun ns r _ hr hns => ?_
    exact Safe.pure fun _ => List.forall_mem_cons.2 ⟨hr.node_lt hn, hns⟩

end

end

/-! ### Whole dumps -/

theorem safe_declsOf (f : FileDump) : Safe placed p (declsOf f) fun _ _ => True := by
  refine Safe.bind (safe_file f.name) fun id q _ _ hid => Safe.forM fun decl _ r _ hr => ?_
  exact Safe.bind (safe_tree decl (hid.mono hr)) fun n s _ _ hn => safe_pushDecl id hn

theorem safe_registerFiles (fs : List FileDump) : Safe placed p (registerFiles fs) fun _ _ => True :=
  Safe.forM fun f _ _ _ _ => Safe.bind (safe_file f.name) fun _ _ _ _ _ => Safe.pure fun _ => trivial

theorem safe_declarations (ds : List PackageDump) : Safe placed p (declarations ds) fun _ _ => True := by
  refine Safe.bind (Safe.forM fun type _ _ _ _ => safe_declareTypeOf type) fun _ _ _ _ _ => ?_
  refine Safe.bind (Safe.forM fun type _ _ _ _ => safe_defineType type) fun _ _ _ _ _ => ?_
  refine Safe.bind (Safe.forM fun type _ _ _ _ => safe_methodsOf type) fun _ _ _ _ _ => ?_
  exact Safe.forM fun obj _ _ _ _ => safe_declareObject obj

/-- A merge is safe, in each of its phases. -/
theorem safe_dumps (ds : List PackageDump) : Safe placed p (dumps ds) fun _ _ => True := by
  rw [dumps_eq]
  refine Safe.bind (safe_registerFiles _) fun _ _ _ _ _ => Safe.bind (safe_declarations ds) fun _ _ _ _ _ => ?_
  exact Safe.forM fun f _ _ _ _ => safe_declsOf f

theorem Stage.wellFormed {ds : List PackageDump} {p₀ : Program} (h : Stage ds p₀ p) (placed : Bool) :
    p.WellFormed placed :=
  ((safe_declarations ds).of_ok ((safe_registerFiles _).of_ok .empty h.registered).1.1 h.declared).1.1

end Build

/-- A program that dumps describe is well-formed. -/
theorem Program.wellFormed_of_ofDumps {ds : List PackageDump} {p : Program} (h : Program.ofDumps ds = .ok p) :
    p.WellFormed true :=
  ((Build.safe_dumps ds).of_ok .empty (ofDumps_eq_ok_iff.1 h)).1.1

end FluentChain
