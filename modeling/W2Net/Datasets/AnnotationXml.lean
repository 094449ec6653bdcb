import W2Net.Datasets.HrscDataset

/-!
# `W2Net.Datasets.AnnotationXml`: an annotation file as a text and as a tree

A VOC-OBB annotation file as its two readers see it. `content` is the text that
`wake2gt.py` searches. The elements are what `xml.etree.ElementTree` makes of the text,
and `parseVocObbXml` is `_parse_voc_obb_xml` of `datasets/hrsc_dataset.py` on them.

An `object` element has elements with a text, and groups of them such as `robndbox`.
`VocObb` is the format: the tags of an object are distinct, and each field stands at its
place. Any field may be missing.
-/

set_option autoImplicit false

namespace W2Net

open W2Net.HrscDataset (Level VocObject RobndBox Roidb parseVocObject)
open W2Net.Text (Token)

/-- How Python reads numbers: `float(text)` and `eval(text)`. `eval` is an error also when
the value is not a number. -/
structure PyNumbers (K : Type) where
  float : String → Option K
  eval : String → PyM K

/-- What both can read, they read alike. -/
def PyNumbers.Agree {K : Type} (num : PyNumbers K) : Prop :=
  ∀ s x y, num.float s = some x → num.eval s = .ok y → x = y

namespace AnnotationXml

/-- `<tag>text</tag>` with the text behind it. -/
structure Leaf where
  tag : String
  text : String
  tail : String
  deriving DecidableEq

/-- An element inside `object`. -/
inductive Child where
  | leaf (l : Leaf)
  | group (tag text : String) (leaves : List Leaf) (tail : String)
  deriving DecidableEq

/-- An `object` element, and the tokens up to the next one. -/
structure ObjectElement where
  text : String
  children : List Child
  after : List Token
  deriving DecidableEq

/-- An annotation file: what stands before the first object, and the objects. -/
structure File where
  info : List Token
  objects : List ObjectElement
  deriving DecidableEq

/-! ### The text -/

/-- `<tag>`. -/
def openTag (tag : String) : Token := .tag tag.toList

/-- `</tag>`. -/
def closeTag (tag : String) : Token := .tag ('/' :: tag.toList)

def Leaf.tokens (l : Leaf) : List Token :=
  [openTag l.tag, .data l.text.toList, closeTag l.tag, .data l.tail.toList]

def Child.tokens : Child → List Token
  | .leaf l => l.tokens
  | .group tag text leaves tail =>
      openTag tag :: .data text.toList :: leaves.flatMap Leaf.tokens
        ++ [closeTag tag, .data tail.toList]

/-- What follows `<object>` up to the next one. -/
def ObjectElement.tokens (o : ObjectElement) : List Token :=
  .data o.text.toList :: o.children.flatMap Child.tokens ++ closeTag "object" :: o.after

/-- The text of the file. -/
def File.content (file : File) : Text :=
  Text.ofTokens (file.info ++ file.objects.flatMap fun o => openTag "object" :: o.tokens)

/-! ### The tree -/

def Child.tag : Child → String
  | .leaf l => l.tag
  | .group tag _ _ _ => tag

def Child.text : Child → String
  | .leaf l => l.text
  | .group _ text _ _ => text

def Child.leaves : Child → List Leaf
  | .leaf _ => []
  | .group _ _ leaves _ => leaves

/-- All tags of an element. -/
def Child.tags (c : Child) : List String := c.tag :: c.leaves.map Leaf.tag

def ObjectElement.tags (o : ObjectElement) : List String := o.children.flatMap Child.tags

/-- `obj.find(tag)`. -/
def ObjectElement.find (o : ObjectElement) (tag : String) : Option Child :=
  o.children.find? fun c => c.tag = tag

/-- `obj.findtext(tag)`. -/
def ObjectElement.findtext (o : ObjectElement) (tag : String) : Option String :=
  (o.find tag).map Child.text

/-- `rbox.findtext(tag)`. -/
def Child.findtext (c : Child) (tag : String) : Option String :=
  (c.leaves.find? fun l => l.tag = tag).map Leaf.text

/-- The fields of an object, with the numbers read by `float`. -/
def vocObject {K : Type} (num : PyNumbers K) (o : ObjectElement) : VocObject K where
  difficult := o.findtext "difficult"
  name := o.findtext "name"
  rbox := (o.find "robndbox").map fun rbox =>
    { cx := rbox.findtext "cx" >>= num.float
      cy := rbox.findtext "cy" >>= num.float
      w := rbox.findtext "w" >>= num.float
      h := rbox.findtext "h" >>= num.float
      ang := rbox.findtext "angle" >>= num.float }

/-- `_parse_voc_obb_xml`. -/
def parseVocObbXml {K : Type} [Field K] (m : PyMath K) (level : Level) (num : PyNumbers K)
    (file : File) : Roidb K :=
  .ofObjects (file.objects.filterMap fun o => parseVocObject m level (vocObject num o))

/-! ### The format -/

/-- The tags of the five numbers. -/
def numberTags : List String := ["cx", "cy", "w", "h", "angle"]

/-- An object in the format: plain texts, distinct tags, the mark as a child of the object
and the numbers as children of `robndbox`. -/
structure ObjectElement.VocObb (o : ObjectElement) : Prop where
  plain : ∀ tok ∈ o.tokens, tok.Plain
  slashFree : ∀ tag ∈ o.tags, '/' ∉ tag.toList
  nodup : o.tags.Nodup
  noObject : "object" ∉ o.tags
  difficult : ∀ c ∈ o.children, "difficult" ∈ c.tags → ∃ l, c = .leaf l
  numbers : ∀ c ∈ o.children, ∀ tag ∈ numberTags, tag ∈ c.tags →
    c.tag = "robndbox" ∧ tag ∈ c.leaves.map Leaf.tag
  after : ∀ name, Token.tag name ∈ o.after → name = "/annotation".toList

/-- A file in the format. -/
structure File.VocObb (file : File) : Prop where
  plain : ∀ tok ∈ file.info, tok.Plain
  noObject : openTag "object" ∉ file.info
  objects : ∀ o ∈ file.objects, o.VocObb

end AnnotationXml

end W2Net
