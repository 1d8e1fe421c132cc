import Mathlib.Data.Finset.Image
import Magisk.Base.Str
import Magisk.Sepolicy.Avtab
import Magisk.Sepolicy.Statement

/-!
# Policies and their methods

The policy a statement works on, and the methods of `SePolicy`.  The methods expand
their lists of names and hand every combination to `sepol_impl`, which looks the names
up and changes the tables.

* `PolicyDb`: the symbol tables, the access vector table and the attribute maps;
* `addRule`, `addXpermRule`, `addTypeRule`, `addType`, `addTypeattribute`,
  `setTypeState`: the methods of `sepol_impl`;
* `allow`, `deny`, `allowxperm` and so on: the methods of `SePolicy`;
* `api`: the method for every call a statement can make.

The roles and the constraints, which are written when a type is declared or given an
attribute and never read here, are left out.
-/

namespace Magisk.Sepolicy

open Magisk.Base

/-! ### The policy -/

/-- The flavours of type data: `TYPE_TYPE`, `TYPE_ATTRIB`, `TYPE_ALIAS`. -/
inductive Flavor where
  | type | attrib | alias
  deriving DecidableEq

/-- `type_datum_t`. -/
structure TypeDatum where
  value : UInt32
  flavor : Flavor
  deriving DecidableEq

/-- `perm_datum_t`; an access vector has room for 32 permissions. -/
structure PermDatum where
  value : Nat
  pos : 0 < value
  le : value ≤ 32
  deriving DecidableEq

/-- `hashtab_t`: the entries in the order `hashtab_for_each` goes through them. -/
abbrev Hashtab (α : Type) := List (Str × α)

/-- `class_datum_t`, with the permissions of its own and those of its `comdatum`. -/
structure ClassDatum where
  value : UInt32
  permissions : Hashtab PermDatum
  comdatum : Option (Hashtab PermDatum)
  deriving DecidableEq

/-- The symbol tables: `p_types` and `p_classes`. -/
structure Symbols where
  types : Hashtab TypeDatum
  typesNprim : UInt32
  classes : Hashtab ClassDatum

/-- `policydb_t`.  The maps have one set for each type; a bit stands for the value after
it. -/
structure PolicyDb extends Symbols where
  teAvtab : Avtab
  typeAttrMap : List (Finset UInt32)
  attrTypeMap : List (Finset UInt32)
  permissiveMap : Finset UInt32
  policyvers : UInt32

/-- The functions of libsepol.  `symtabInsert` is `symtab_insert` for a new type,
`policydbIndex` tells whether the index functions all succeed. -/
structure Libsepol extends LibsepolAvtab where
  symtabInsert : Symbols → Str → TypeDatum → Option (Symbols × UInt32)
  policydbIndex : PolicyDb → Bool

/-- New types stand at the end of their table, with the next value. -/
def Libsepol.reference : Libsepol where
  toLibsepolAvtab := .reference
  symtabInsert sym name type :=
    some ({ sym with types := sym.types ++ [(name, type)], typesNprim := sym.typesNprim + 1 },
      sym.typesNprim + 1)
  policydbIndex _ := true

/-- `hashtab_find`: the name goes through a buffer of 256 bytes. -/
def hashtabFind {α : Type} (h : Hashtab α) (key : String) : Option α :=
  h.lookup (cStr ((str key).take 255))

variable (L : Libsepol)

/-! ### Access vector rules -/

/-- `strip_av`. -/
def stripAv (effect : Specified) (invert : Bool) : Bool :=
  decide (effect = .auditdeny) == !invert

/-- The data of the entries, for `hashtab_for_each`. -/
def Symbols.allTypes (sym : Symbols) : List TypeDatum := sym.types.map Prod.snd

/-- The attributes, for `for_each_attr`. -/
def Symbols.attributes (sym : Symbols) : List TypeDatum :=
  sym.allTypes.filter (·.flavor = .attrib)

/-- The classes, for `hashtab_for_each`. -/
def Symbols.allClasses (sym : Symbols) : List ClassDatum := sym.classes.map Prod.snd

/-- A branch for a null pointer: the call is repeated for everything it stands for. -/
def forEach {α σ : Type} (all : List α) (ptr : Option α) (f : α → σ → σ) (state : σ) : σ :=
  match ptr with
  | some a => f a state
  | none => all.foldl (fun state a => f a state) state

/-- The change of the access vector. -/
def updateData (perm : Option PermDatum) (invert : Bool) (data : BitVec 32) : BitVec 32 :=
  if invert then
    match perm with
    | some perm => data &&& ~~~(1#32 <<< (perm.value - 1))
    | none => 0#32
  else
    match perm with
    | some perm => data ||| 1#32 <<< (perm.value - 1)
    | none => BitVec.allOnes 32

/-- The key of a rule. -/
def ruleKey (src tgt : TypeDatum) (cls : ClassDatum) (effect : Specified) : AvtabKey :=
  ⟨src.value.toUInt16, tgt.value.toUInt16, cls.value.toUInt16, effect⟩

/-- The last branch of `add_rule`, for a key. -/
def addRuleNode (key : AvtabKey) (perm : Option PermDatum) (invert : Bool) (h : Avtab) : Avtab :=
  let (h, node) := getAvtabNode L.toLibsepolAvtab h key none
  let update (d : AvtabDatum) : AvtabDatum := { d with data := updateData perm invert d.data }
  let h := h.write node update
  let node := { node with datum := update node.datum }
  if isRedundant node then (avtabRemoveNode L.toLibsepolAvtab h node).getD h else h

/-- `add_rule` on data; a null pointer matches all. -/
def addRuleDatum (sym : Symbols) (src tgt : Option TypeDatum) (cls : Option ClassDatum)
    (perm : Option PermDatum) (effect : Specified) (invert : Bool) (h : Avtab) : Avtab :=
  -- stripping has to reach the types, adding leaves it to their attributes
  let types := if stripAv effect invert then sym.allTypes else sym.attributes
  forEach types src (fun src => forEach types tgt fun tgt => forEach sym.allClasses cls fun cls =>
    addRuleNode L (ruleKey src tgt cls effect) perm invert) h

/-- A name of a rule: the empty one is the null pointer, and one that is not found ends
the call. -/
def resolve {α : Type} (table : Hashtab α) (name : String) : Option (Option α) :=
  if name = "" then some none else (hashtabFind table name).map some

/-- The permission of a rule, in the class or its common permissions. -/
def resolvePerm (cls : Option ClassDatum) (p : String) : Option (Option PermDatum) :=
  if p = "" then some none
  else
    match cls with
    | none => none
    | some cls =>
      match hashtabFind cls.permissions p with
      | some perm => some (some perm)
      | none => (cls.comdatum.bind (hashtabFind · p)).map some

/-- `add_rule` on names. -/
def addRule (sym : Symbols) (s t c p : String) (effect : Specified) (invert : Bool) (h : Avtab) :
    Avtab × Bool :=
  match resolve sym.types s with
  | none => (h, false)
  | some src =>
    match resolve sym.types t with
    | none => (h, false)
    | some tgt =>
      match resolve sym.classes c with
      | none => (h, false)
      | some cls =>
        match resolvePerm cls p with
        | none => (h, false)
        | some perm => (addRuleDatum L sym src tgt cls perm effect invert h, true)

/-! ### Extended permission rules -/

/-- `ioctl_driver`. -/
def ioctlDriver (x : UInt16) : UInt8 := (x >>> 8 &&& 0xFF).toUInt8

/-- `ioctl_func`. -/
def ioctlFunc (x : UInt16) : UInt8 := (x &&& 0xFF).toUInt8

/-- `xperm_set`. -/
def xpermSet (i : Nat) (perms : BitVec 256) : BitVec 256 := perms ||| 1#256 <<< i

/-- `xperm_clear`. -/
def xpermClear (i : Nat) (perms : BitVec 256) : BitVec 256 := perms &&& ~~~(1#256 <<< i)

/-- A loop over the bits from one to another. -/
def forBits (f : Nat → BitVec 256 → BitVec 256) (low high : UInt8) (perms : BitVec 256) :
    BitVec 256 :=
  (List.range' low.toNat (high.toNat + 1 - low.toNat)).foldl (fun perms i => f i perms) perms

/-- The place of a node in `node_list`: the driver node has one of its own, here `none`,
function nodes have that of their driver. -/
def nodeSlot (node : AvtabNode) : Option (Option UInt8) :=
  match node.datum.xperms with
  | some x =>
    match x.specified with
    | .ioctldriver => some none
    | .ioctlfunction => some (some x.driver)
    | .other _ => none
  | none => none

/-- `node_list`. -/
abbrev NodeList := Option UInt8 → Option AvtabNode

/-- Collecting the nodes of a key. -/
def nodeList (nodes : List AvtabNode) : NodeList :=
  nodes.foldl (fun list node =>
    match nodeSlot node with
    | some i => Function.update list i (some node)
    | none => list) fun _ => none

/-- An assignment to the `perms` of a node. -/
def setPerms (f : BitVec 256 → BitVec 256) (d : AvtabDatum) : AvtabDatum :=
  { d with xperms := d.xperms.map fun x => { x with perms := f x.perms } }

/-- `new_driver_node` and `new_func_node`, by the place in `node_list`. -/
def newXpermsNode (key : AvtabKey) (slot : Option UInt8) (h : Avtab) : Avtab × AvtabNode :=
  let (h, node) := insertAvtabNode L.toLibsepolAvtab h key
  let xperms : AvtabExtendedPerms :=
    match slot with
    | none => ⟨.ioctldriver, 0, 0#256⟩
    | some driver => ⟨.ioctlfunction, driver, 0#256⟩
  let update (d : AvtabDatum) : AvtabDatum := { d with xperms := some xperms }
  (h.write node update, { node with datum := update node.datum })

/-- The node of `node_list`, or a new one. -/
def getXpermsNode (key : AvtabKey) (list : NodeList) (slot : Option UInt8) (h : Avtab) :
    Avtab × AvtabNode :=
  match list slot with
  | some node => (h, node)
  | none => newXpermsNode L key slot h

/-- The branch of `add_xperm_rule` that sets bits. -/
def setXperm (key : AvtabKey) (p : Xperm) (list : NodeList) (h : Avtab) : Avtab :=
  if ioctlDriver p.low ≠ ioctlDriver p.high then
    let (h, driverNode) := getXpermsNode L key list none h
    h.write driverNode (setPerms (forBits xpermSet (ioctlDriver p.low) (ioctlDriver p.high)))
  else
    let (h, node) := getXpermsNode L key list (some (ioctlDriver p.low)) h
    h.write node (setPerms (forBits xpermSet (ioctlFunc p.low) (ioctlFunc p.high)))

/-- The function nodes are removed. -/
def removeFunctionNodes (list : NodeList) (h : Avtab) : Avtab :=
  ((List.range 256).map UInt8.ofNat).foldl (fun h i =>
    match list (some i) with
    | some node => (avtabRemoveNode L.toLibsepolAvtab h node).getD h
    | none => h) h

/-- The driver node, which may be new, is filled. -/
def fillDriverNode (key : AvtabKey) (list : NodeList) (h : Avtab) : Avtab × AvtabNode :=
  let h :=
    match list none with
    | some driverNode => h.write driverNode (setPerms fun _ => 0#256)
    | none => h
  let (h, driverNode) := getXpermsNode L key list none h
  (h.write driverNode (setPerms fun _ => BitVec.allOnes 256), driverNode)

/-- The function node, which is filled if it is new. -/
def fillFunctionNode (key : AvtabKey) (list : NodeList) (driver : UInt8) (h : Avtab) :
    Avtab × AvtabNode :=
  match list (some driver) with
  | some node => (h, node)
  | none =>
    let (h, node) := newXpermsNode L key (some driver) h
    (h.write node (setPerms fun _ => BitVec.allOnes 256), node)

/-- The branches of `add_xperm_rule` that reset the rules and clear bits. -/
def resetXperm (key : AvtabKey) (p : Xperm) (list : NodeList) (h : Avtab) : Avtab :=
  let h := removeFunctionNodes L list h
  let list : NodeList := fun i => if i = none then list i else none
  let (h, driverNode) := fillDriverNode L key list h
  if ioctlDriver p.low ≠ ioctlDriver p.high then
    h.write driverNode (setPerms (forBits xpermClear (ioctlDriver p.low) (ioctlDriver p.high)))
  else
    let driver := ioctlDriver p.low
    let (h, node) := fillFunctionNode L key list driver h
    let h := h.write driverNode (setPerms (xpermClear driver.toNat))
    h.write node (setPerms (forBits xpermClear (ioctlFunc p.low) (ioctlFunc p.high)))

/-- The last branch of `add_xperm_rule`, for a key. -/
def addXpermNode (key : AvtabKey) (p : Xperm) (h : Avtab) : Avtab :=
  let list := nodeList (searchAll L.toLibsepolAvtab h key)
  if p.reset then resetXperm L key p list h else setXperm L key p list h

/-- `POLICYDB_VERSION_XPERMS_IOCTL`. -/
def policydbVersionXpermsIoctl : UInt32 := 30

/-- `add_xperm_rule` on data; a null pointer matches all. -/
def addXpermRuleDatum (policyvers : UInt32) (sym : Symbols) (src tgt : Option TypeDatum)
    (cls : Option ClassDatum) (p : Xperm) (effect : Specified) (h : Avtab) : Avtab :=
  if policyvers < policydbVersionXpermsIoctl then h
  else
    forEach sym.attributes src (fun src => forEach sym.attributes tgt fun tgt =>
      forEach sym.allClasses cls fun cls => addXpermNode L (ruleKey src tgt cls effect) p) h

/-- `add_xperm_rule` on names. -/
def addXpermRule (policyvers : UInt32) (sym : Symbols) (s t c : String) (p : Xperm)
    (effect : Specified) (h : Avtab) : Avtab × Bool :=
  match resolve sym.types s with
  | none => (h, false)
  | some src =>
    match resolve sym.types t with
    | none => (h, false)
    | some tgt =>
      match resolve sym.classes c with
      | none => (h, false)
      | some cls => (addXpermRuleDatum L policyvers sym src tgt cls p effect h, true)

/-! ### Type rules -/

/-- `add_type_rule`. -/
def addTypeRule (s t c d : String) (effect : Specified) (db : PolicyDb) : PolicyDb × Bool :=
  match hashtabFind db.types s, hashtabFind db.types t, hashtabFind db.classes c,
    hashtabFind db.types d with
  | some src, some tgt, some cls, some dflt =>
    let (h, node) := getAvtabNode L.toLibsepolAvtab db.teAvtab (ruleKey src tgt cls effect) none
    let h := h.write node fun datum => { datum with data := dflt.value.toBitVec }
    ({ db with teAvtab := h }, true)
  | _, _, _, _ => (db, false)

/-! ### Types and attributes -/

/-- `realloc` of one of the attribute maps. -/
def resize (map : List (Finset UInt32)) (n : Nat) : List (Finset UInt32) :=
  map.take n ++ List.replicate (n - map.length) ∅

/-- `add_type`. -/
def addType (typeName : String) (flavor : Flavor) (db : PolicyDb) : PolicyDb × Bool :=
  match hashtabFind db.types typeName with
  | some _ => (db, true)
  | none =>
    let tyName := cStr (str typeName)
    match L.symtabInsert db.toSymbols tyName ⟨0, flavor⟩ with
    | none => (db, false)
    | some (sym, value) =>
      let types := sym.types.map fun (name, type) =>
        (name, if name = tyName then { type with value := value } else type)
      let n := sym.typesNprim.toNat
      let i := (value - 1).toNat
      let db := { db with
        toSymbols := { sym with types := types }
        typeAttrMap := (resize db.typeAttrMap n).set i {value - 1}
        attrTypeMap := (resize db.attrTypeMap n).set i ∅ }
      (db, L.policydbIndex db)

/-- `add_typeattribute` on data. -/
def addTypeattributeDatum (type attr : TypeDatum) (db : PolicyDb) : PolicyDb :=
  { db with
    typeAttrMap := db.typeAttrMap.modify (type.value - 1).toNat (insert (attr.value - 1))
    attrTypeMap := db.attrTypeMap.modify (attr.value - 1).toNat (insert (type.value - 1)) }

/-- `add_typeattribute` on names. -/
def addTypeattribute (type attr : String) (db : PolicyDb) : PolicyDb × Bool :=
  match hashtabFind db.types type with
  | none => (db, false)
  | some typeD =>
    if typeD.flavor = .attrib then (db, false)
    else
      match hashtabFind db.types attr with
      | none => (db, false)
      | some attrD =>
        if attrD.flavor ≠ .attrib then (db, false)
        else (addTypeattributeDatum typeD attrD db, true)

/-- A bit of `permissive_map`, which is the value itself. -/
def setPermissive (type : TypeDatum) (permissive : Bool) (db : PolicyDb) : PolicyDb :=
  { db with
    permissiveMap :=
      if permissive then insert type.value db.permissiveMap else db.permissiveMap.erase type.value }

/-- `set_type_state`. -/
def setTypeState (typeName : String) (permissive : Bool) (db : PolicyDb) : PolicyDb × Bool :=
  if typeName = "" then
    (db.allTypes.foldl (fun db type => setPermissive type permissive db) db, true)
  else
    match hashtabFind db.types typeName with
    | none => (db, false)
    | some type => (setPermissive type permissive db, true)

/-! ### The methods of `SePolicy` -/

/-- The names `expand` goes through for a vector: an empty one passes the empty name. -/
def expandNames (vec : List String) : List String := if vec = [] then [""] else vec

/-- `expand` of a vector. -/
def expand {σ : Type} (vec : List String) (f : String → σ → σ) (state : σ) : σ :=
  (expandNames vec).foldl (fun state s => f s state) state

/-- `expand` of a vector of ranges. -/
def expandXperms {σ : Type} (vec : List Xperm) (f : Xperm → σ → σ) (state : σ) : σ :=
  vec.foldl (fun state p => f p state) state

/-- A method that adds rules for every combination of names. -/
def avRules (effect : Specified) (invert : Bool) (src tgt cls perm : List String)
    (db : PolicyDb) : PolicyDb :=
  { db with
    teAvtab := expand src (fun s => expand tgt fun t => expand cls fun c => expand perm fun p h =>
      (addRule L db.toSymbols s t c p effect invert h).1) db.teAvtab }

/-- `SePolicy::allow`. -/
def allow := avRules L .allowed false

/-- `SePolicy::deny`. -/
def deny := avRules L .allowed true

/-- `SePolicy::auditallow`. -/
def auditallow := avRules L .auditallow false

/-- `SePolicy::dontaudit`. -/
def dontaudit := avRules L .auditdeny true

/-- A method that adds extended permission rules for every combination of names. -/
def xpermRules (effect : Specified) (src tgt cls : List String) (xperm : List Xperm)
    (db : PolicyDb) : PolicyDb :=
  { db with
    teAvtab := expand src (fun s => expand tgt fun t => expand cls fun c =>
      expandXperms xperm fun p h =>
        (addXpermRule L db.policyvers db.toSymbols s t c p effect h).1) db.teAvtab }

/-- `SePolicy::allowxperm`. -/
def allowxperm := xpermRules L .xpermsAllowed

/-- `SePolicy::auditallowxperm`. -/
def auditallowxperm := xpermRules L .xpermsAuditallow

/-- `SePolicy::dontauditxperm`. -/
def dontauditxperm := xpermRules L .xpermsDontaudit

/-- `SePolicy::permissive`. -/
def permissive (types : List String) : PolicyDb → PolicyDb :=
  expand types fun t db => (setTypeState t true db).1

/-- `SePolicy::enforce`. -/
def enforce (types : List String) : PolicyDb → PolicyDb :=
  expand types fun t db => (setTypeState t false db).1

/-- `SePolicy::typeattribute`. -/
def typeattribute (types attrs : List String) : PolicyDb → PolicyDb :=
  expand types fun t => expand attrs fun a db => (addTypeattribute t a db).1

/-- `SePolicy::type`; without attributes, the empty name is looked up for one. -/
def type (type : String) (attrs : List String) : PolicyDb → PolicyDb :=
  expand attrs fun attr db =>
    match addType L type .type db with
    | (db, true) => (addTypeattribute type attr db).1
    | (db, false) => db

/-- `SePolicy::attribute`. -/
def newAttribute (name : String) (db : PolicyDb) : PolicyDb := (addType L name .attrib db).1

/-- The method for a call.  Filename transitions and `genfscon` rules, which have tables of
their own, are left to `other`. -/
def api (other : Call → PolicyDb → PolicyDb) : Call → PolicyDb → PolicyDb
  | .allow src tgt cls perm => allow L src tgt cls perm
  | .deny src tgt cls perm => deny L src tgt cls perm
  | .auditallow src tgt cls perm => auditallow L src tgt cls perm
  | .dontaudit src tgt cls perm => dontaudit L src tgt cls perm
  | .allowxperm src tgt cls xperm => allowxperm L src tgt cls xperm
  | .auditallowxperm src tgt cls xperm => auditallowxperm L src tgt cls xperm
  | .dontauditxperm src tgt cls xperm => dontauditxperm L src tgt cls xperm
  | .permissive types => permissive types
  | .enforce types => enforce types
  | .typeattribute types attrs => typeattribute types attrs
  | .type t attrs => type L t attrs
  | .attribute name => newAttribute L name
  | .typeTransition src tgt cls dflt obj =>
    if obj ≠ "" then other (.typeTransition src tgt cls dflt obj)
    else fun db => (addTypeRule L src tgt cls dflt .transition db).1
  | .typeChange src tgt cls dflt => fun db => (addTypeRule L src tgt cls dflt .change db).1
  | .typeMember src tgt cls dflt => fun db => (addTypeRule L src tgt cls dflt .member db).1
  | .genfscon fsName path ctx => other (.genfscon fsName path ctx)

/-! ### A small policy -/

/-- The permission of the first bit. -/
def readPerm : PermDatum := ⟨1, by decide, by decide⟩

/-- A class with a permission of its own and a common one. -/
def fileClass : ClassDatum :=
  ⟨1, [(str "open", ⟨2, by decide, by decide⟩)], some [(str "read", readPerm)]⟩

/-- One attribute, one type that has it, one class, and no rules. -/
def smallPolicy : PolicyDb where
  types := [(str "domain", ⟨1, .attrib⟩), (str "t", ⟨2, .type⟩)]
  typesNprim := 2
  classes := [(str "file", fileClass)]
  teAvtab := ⟨⟨fun _ => [], 0⟩, 0, 0xFF⟩
  typeAttrMap := [{0}, {0, 1}]
  attrTypeMap := [{1}, {1}]
  permissiveMap := ∅
  policyvers := 30

lemma smallPolicy_valid : Libsepol.reference.Valid smallPolicy.teAvtab := by
  refine ⟨fun i n hn => ?_, fun i n hn => ?_, fun i => List.nodup_nil, fun i j n hn => ?_⟩
  all_goals exact absurd hn List.not_mem_nil

end Magisk.Sepolicy
