import ObjectGraph.Digest.Sha256
import ObjectGraph.Entity

/-!
# The content of an entity as bytes

What makes an entity dirty when it changes: its type, its labels, its properties and where its
references lead. `Entity.contentBytes` writes that down as one byte string. Every text is preceded by
its length and every collection by its size, and every value by a byte for its form, so that nothing
runs into what follows; labels, keys and fields ascend, so that no order of registration shows. Of an
entity referred to only the id is written, if it has one. The digest is the hash of that string.
-/

set_option autoImplicit false

namespace ObjectGraph

namespace Content

/-- Eight bytes, least significant first. -/
def wordBytes (w : UInt64) : List UInt8 :=
  [w.toUInt8, (w >>> 8).toUInt8, (w >>> 16).toUInt8, (w >>> 24).toUInt8,
    (w >>> 32).toUInt8, (w >>> 40).toUInt8, (w >>> 48).toUInt8, (w >>> 56).toUInt8]

def countBytes (n : Nat) : List UInt8 := wordBytes (UInt64.ofNat n)

/-- A text: its length in bytes, and its bytes. -/
def textBytes (s : String) : List UInt8 := countBytes s.utf8ByteSize ++ s.toUTF8.data.toList

mutual
/-- A value whose maps are in order. -/
def valueBytes : Value → List UInt8
  | .string s => 0 :: textBytes s
  | .integer i => 1 :: wordBytes i.toUInt64
  | .float x => 2 :: wordBytes x.bits
  | .boolean b => [3, if b then 1 else 0]
  | .dateTime millis => 4 :: wordBytes millis.toUInt64
  | .array items => 5 :: (countBytes items.length ++ itemsBytes items)
  | .map bindings => 6 :: (countBytes bindings.length ++ bindingsBytes bindings)
  | .null => [7]
def itemsBytes : List Value → List UInt8
  | [] => []
  | v :: rest => valueBytes v ++ itemsBytes rest
/-- One binding after the other, each the key and the value. -/
def bindingsBytes : List (String × Value) → List UInt8
  | [] => []
  | (k, v) :: rest => textBytes k ++ (valueBytes v ++ bindingsBytes rest)
end

def labelsBytes (labels : NameSet .label) : List UInt8 :=
  countBytes labels.size ++ labels.toList.flatMap fun l => textBytes l.text

/-- The properties by ascending keys. -/
def propertiesBytes (properties : Table String Value) : List UInt8 :=
  let bindings := Value.normalBindings properties.entries
  countBytes bindings.length ++ bindingsBytes bindings

def idBytes : Option NativeId → List UInt8
  | some id => 1 :: wordBytes id.toUInt64
  | none => [0]

/-- The references by ascending fields, each with the id of its target. -/
def referencesBytes (heap : Heap) (references : Table String Handle) : List UInt8 :=
  let fields := KeyOrder.sorted references.entries
  countBytes fields.length ++ fields.flatMap fun f => textBytes f.1 ++ idBytes (heap.get f.2).id

end Content

open Content in
def Entity.contentBytes (heap : Heap) (e : Entity) : List UInt8 :=
  textBytes e.typeName.text ++ (labelsBytes e.labels ++
    (propertiesBytes e.properties ++ referencesBytes heap e.references))

def Entity.digest (heap : Heap) (e : Entity) : Sha256.Words := Sha256.hash (e.contentBytes heap)

end ObjectGraph
