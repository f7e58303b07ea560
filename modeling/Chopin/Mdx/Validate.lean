import Chopin.Mdx.Components

/-!
# Dialect validation

`validate` (`validate.ts`) walks a syntax tree and returns every issue it finds; a plan is accepted when there are
none.  Issues carry names, counts and limits and never echo prose.

What a URL's protocol is and how a text is put in upper case, the language's library decides: `Library`.
-/

set_option autoImplicit false

open Script

namespace Chopin.Mdx

/-- What the validator calls of the language's library. -/
structure Library where
  /-- `new URL(url).protocol`, unless that throws. -/
  protocol : Units → Option Units
  /-- `text.toUpperCase()` -/
  upperCase : Units → Units

structure Issue where
  /-- Machine-readable, stable across releases. -/
  code : String
  message : String
  /-- Structural location. -/
  path : String
  /-- Byte offset in source when the node carries position info. -/
  offset : Option Nat
deriving DecidableEq

/-- The issues of a part of the tree, and the images in it. -/
structure Findings where
  issues : List Issue
  images : Nat
deriving DecidableEq

instance : Append Findings := ⟨fun first second ↦ ⟨first.issues ++ second.issues, first.images + second.images⟩⟩

@[simp] theorem Findings.issues_append (first second : Findings) :
    (first ++ second).issues = first.issues ++ second.issues := rfl

/-- An issue, when there is reason for one. -/
def report (when : Bool) (code message path : String) (offset : Option Nat) : List Issue :=
  if when then [⟨code, message, path, offset⟩] else []

/-! ## Expressions -/

/-- `[0-9]` -/
def isDigit (unit : Nat) : Bool := 0x30 ≤ unit && unit ≤ 0x39

/-- `[A-Za-z]` -/
def isLetter (unit : Nat) : Bool := (0x41 ≤ unit && unit ≤ 0x5a) || (0x61 ≤ unit && unit ≤ 0x7a)

/-- `REFERENCE.test(value)`: `/^[A-Za-z0-9][A-Za-z0-9._:-]*$/` -/
def isReference (value : Units) : Bool :=
  value.head?.any (fun unit ↦ isLetter unit || isDigit unit) &&
    value.all fun unit ↦ isLetter unit || isDigit unit || [0x2e, 0x5f, 0x3a, 0x2d].contains unit

/-- `ULID.test(value)`: `/^[0-7][0-9A-HJKMNP-TV-Z]{25}$/` -/
def isUlid (value : Units) : Bool :=
  value.length == 26 && value.head?.any (fun unit ↦ 0x30 ≤ unit && unit ≤ 0x37) && value.all fun unit ↦
    isDigit unit || (0x41 ≤ unit && unit ≤ 0x5a && !([0x49, 0x4c, 0x4f, 0x55].contains unit))

/-- The number a row of digits stands for. -/
def numberOf (value : Units) : Nat := value.foldl (fun number unit ↦ 10 * number + (unit - 0x30)) 0

/-- `/^(0|[1-9][0-9]*)$/` -/
def isCanonicalInteger (value : Units) : Bool :=
  value == [0x30] || (value != [] && value.all isDigit && value.head? != some 0x30)

/-- `/^[a-z][a-z0-9+.-]*:/i` -/
def hasScheme (url : Units) : Bool :=
  url.head?.any isLetter && url.contains 0x3a &&
    (url.takeWhile (· != 0x3a)).all fun unit ↦ isLetter unit || isDigit unit || [0x2b, 0x2e, 0x2d].contains unit

/-- `HOSTED_IMAGE_PATH.test(url)`: `/^\/images\/[0-9a-f]{64}\.(?:png|jpg|jpeg|webp|gif)$/` -/
def isHostedImage (url : Units) : Bool :=
  url.take 8 == utf16 "/images/" &&
    ((url.drop 8).take 64).length == 64 &&
    ((url.drop 8).take 64).all (fun unit ↦ isDigit unit || (0x61 ≤ unit && unit ≤ 0x66)) &&
    [".png", ".jpg", ".jpeg", ".webp", ".gif"].any fun ending ↦ url.drop 72 == utf16 ending

/-- `value.trim()` is empty. -/
def isBlank (value : Units) : Bool := trimUnits value == []

/-- `value.split(/\s+/).filter(Boolean)` -/
def words (value : Units) : List Units := (value.splitOnP isSpaceUnit).filter (· != [])

/-- `value.lastIndexOf(unit)`, when it is found. -/
def lastIndexOf (value : Units) (unit : Nat) : Option Nat :=
  (value.reverse.findIdx? (· == unit)).map fun place ↦ value.length - 1 - place

/-- `strings.includes(value)` -/
def oneOf (strings : List String) (value : Units) : Bool := strings.any fun string ↦ utf16 string == value

/-! ## Attributes -/

/-- One attribute of a component, behind those it has set so far. -/
def writtenAttribute (spec : Component) (path : String) (offset : Option Nat) (seen : List (String × Units)) :
    Attribute → List Issue × List (String × Units)
  | .spread => ([⟨"spread-attribute", "Spread attributes are not allowed", path, offset⟩], seen)
  | .named name none =>
    ([⟨"expression-attribute", "`" ++ name ++ "` must be a quoted string, not an expression", path, offset⟩], seen)
  | .named name (some value) =>
    if !(spec.attributes.any (·.1 == name)) then
      ([⟨"unknown-attribute", "`" ++ spec.name ++ "` has no `" ++ name ++ "` attribute", path, offset⟩], seen)
    else if seen.any (·.1 == name) then
      ([⟨"duplicate-attribute", "`" ++ name ++ "` is set more than once", path, offset⟩], seen)
    else ([], seen ++ [(name, value)])

/-- The loop over a component's attributes. -/
def writtenAttributes (spec : Component) (path : String) (offset : Option Nat) (seen : List (String × Units)) :
    List Attribute → List Issue × List (String × Units)
  | [] => ([], seen)
  | item :: rest =>
    let one := writtenAttribute spec path offset seen item
    let others := writtenAttributes spec path offset one.2 rest
    (one.1 ++ others.1, others.2)

/-- What is wrong with the value of an attribute. -/
def valueIssues (spec : Component) (path : String) (offset : Option Nat) (name : String) (value : Units) :
    AttributeSpec → List Issue
  | .id =>
    report (!isUlid value) "bad-id" ("`" ++ spec.name ++ "." ++ name ++ "` must be a ULID") path offset
  | .reference max =>
    report (decide (max < value.length) || !isReference value) "bad-reference"
      ("`" ++ spec.name ++ "." ++ name ++ "` must be a safe external reference") path offset
  | .text _ max empty =>
    if isBlank value && !empty && !(["Question", "Option", "Answer"].contains spec.name) then
      [⟨"empty-attribute", "`" ++ spec.name ++ "." ++ name ++ "` cannot be empty", path, offset⟩]
    else
      report (max < value.length) "attribute-too-long"
        ("`" ++ spec.name ++ "." ++ name ++ "` exceeds " ++ toString max ++ " characters") path offset
  | .integer _ min max =>
    report (!isCanonicalInteger value || decide (numberOf value < min) || decide (max < numberOf value))
      "bad-attribute-value"
      ("`" ++ spec.name ++ "." ++ name ++ "` must be an integer from " ++ toString min ++ " to " ++ toString max)
      path offset
  | .enum _ values =>
    report (!oneOf values value) "bad-attribute-value"
      ("`" ++ spec.name ++ "." ++ name ++ "` must be one of " ++ ", ".intercalate values) path offset

/-- One attribute of the component, as it was written. -/
def specIssues (spec : Component) (path : String) (offset : Option Nat) (seen : List (String × Units))
    (entry : String × AttributeSpec) : List Issue :=
  match seen.lookup entry.1 with
  | none =>
    report entry.2.required "missing-attribute" ("`" ++ spec.name ++ "` requires `" ++ entry.1 ++ "`") path offset
  | some value => valueIssues spec path offset entry.1 value entry.2

/-- `#attributes` -/
def attributesOf (node : Node) (spec : Component) (path : String) : List Issue :=
  let written := writtenAttributes spec path node.offset [] node.attributes
  written.1 ++ spec.attributes.flatMap (specIssues spec path node.offset written.2)

/-! ## Content -/

/-- Whitespace between block components is an artefact of formatting. -/
def isFormatting : Node → Bool
  | .text value _ => isBlank value
  | _ => false

/-- The child is one of these components. -/
def isAllowed (allowed : List String) (child : Node) : Bool :=
  (child.name.filter (· ≠ "")).any allowed.contains

/-- A question of a card in a conversation, while it is not decided. -/
def pendingQuestion (node : Node) (spec : Component) (parent : Option Node) : Bool :=
  spec.name == "Question" && parent.any fun parent ↦
    parent.name == some "Questionnaire" && (parent.stringAttribute "thread").any (· != []) &&
      (parent.children.filter fun child ↦ child.isJsx && child.name == some "Question").length == 1 &&
      oneOf ["open", "reopened", "discarded"] ((parent.stringAttribute "status").getD []) &&
      node.stringAttribute "multiple" == some (utf16 "false")

/-- A free-text question, from a card with no thread that is open or expired, has no options until its answer is
projected. -/
def freeTextQuestion (spec : Component) (parent : Option Node) : Bool :=
  spec.name == "Question" && parent.any fun parent ↦
    parent.name == some "Questionnaire" && !((parent.stringAttribute "thread").any (· != [])) &&
      [none, some (utf16 "expired")].contains (parent.stringAttribute "status")

def writtenQuestion (node : Node) (spec : Component) : Bool :=
  spec.name == "Question" && node.stringAttribute "response" == some (utf16 "text")

/-- `#content` -/
def contentOf (node : Node) (spec : Component) (path : String) (parent : Option Node) : List Issue :=
  match spec.content with
  | .empty =>
    report (!node.children.isEmpty) "unexpected-children" ("`" ++ spec.name ++ "` cannot have children") path
      node.offset
  | .components allowed =>
    let kids := node.children.filter fun child ↦ !isFormatting child
    let found := (kids.filter (isAllowed allowed)).length
    ((kids.filter fun child ↦ !isAllowed allowed child).map fun child ↦
        ⟨"unexpected-child", "`" ++ spec.name ++ "` may only contain " ++ ", ".intercalate allowed, path,
          child.offset⟩) ++
      report (spec.name == "Columns" && found != 2) "bad-column-count" "`Columns` requires exactly two columns" path
        node.offset ++
      report (found == 0 && !pendingQuestion node spec parent && !freeTextQuestion spec parent &&
          !writtenQuestion node spec) "missing-children"
        ("`" ++ spec.name ++ "` requires at least one " ++ " or ".intercalate allowed) path node.offset
  | .blocks => []
  | .phrasing => []

/-! ## Questions -/

/-- The components of this name in a question. -/
def elements (node : Node) (name : String) : List Node :=
  node.children.filter fun child ↦ child.isJsx && child.name == some name

/-- The ids of these components; one that has none counts as well. -/
def ids (items : List Node) : List (Option Units) := (items.map (·.stringAttribute "id")).dedup

/-- One cell of a matrix is no mark of this question, or was seen before. -/
def badCell (options criteria : List (Option Units)) (seen : List Units) (cell : Units) : Bool × List Units :=
  match lastIndexOf cell 0x3a with
  | none => (true, seen)
  | some colon =>
    -- `cell.lastIndexOf("/", colon)`
    match lastIndexOf (cell.take (colon + 1)) 0x2f with
    | none => (true, seen)
    | some slash =>
      if slash < 1 || seen.contains (cell.take colon) then (true, seen)
      else
        (!(options.contains (some (cell.take slash))) ||
          !(criteria.contains (some ((cell.take colon).drop (slash + 1)))) ||
          !oneOf ["yes", "partly", "no"] (cell.drop (colon + 1)), seen ++ [cell.take colon])

/-- `cells.some(…)` -/
def someBad (options criteria : List (Option Units)) (seen : List Units) : List Units → Bool
  | [] => false
  | cell :: rest =>
    let (bad, seen) := badCell options criteria seen cell
    bad || someBad options criteria seen rest

/-- The marks of an answer. -/
def marksIssues (options criteria : List (Option Units)) (criterionCount : Nat) (path : String) (answer : Node) :
    List Issue :=
  match answer.stringAttribute "marks" with
  | none => []
  | some marks =>
    let cells := words (trimUnits marks)
    report (criterionCount == 0 || cells.isEmpty || decide (options.length * criteria.length < cells.length) ||
        someBad options criteria [] cells) "invalid-answer-marks"
      "Answer marks must be option/criterion:yes|partly|no cells of this question" path answer.offset

/-- The choices of an answer or of a previous one; `who` begins the messages, and `kind` the codes. -/
def choicesIssues (node item : Node) (options : List (Option Units)) (written : Bool) (path : String)
    (kind who textMessage : String) : List Issue :=
  match item.stringAttribute "choices" with
  | none => []
  | some raw =>
    let chosen := words (trimUnits raw)
    report written ("text-" ++ kind ++ "-choices") textMessage path item.offset ++
      report (MAX_OPTIONS < chosen.length) ("too-many-" ++ kind ++ "-choices")
        (who ++ " accepts at most " ++ toString MAX_OPTIONS ++ " choices") path item.offset ++
      report (chosen.any fun id ↦ !(options.contains (some id))) ("unknown-" ++ kind ++ "-choice")
        (who ++ " choices must name options in this question") path item.offset ++
      report (chosen.dedup.length != chosen.length) ("duplicate-" ++ kind ++ "-choice")
        (who ++ " choices cannot repeat an option") path item.offset ++
      report (node.stringAttribute "multiple" == some (utf16 "false") && decide (1 < chosen.length))
        ("too-many-" ++ kind ++ "-choices") "This question accepts one choice" path item.offset

/-- One answer. -/
def answerIssues (node : Node) (options criteria : List (Option Units)) (criterionCount : Nat) (written : Bool)
    (path : String) (answer : Node) : List Issue :=
  marksIssues options criteria criterionCount path answer ++
    report (written && !((answer.stringAttribute "value").any fun value ↦
        !isBlank value && decide (value.length ≤ MAX_CUSTOM_ANSWER)))
      "invalid-text-answer" "A written answer requires bounded prose" path answer.offset ++
    choicesIssues node answer options written path "answer" "Answer" "A written answer cannot select options"

/-- One previous answer. -/
def previousIssues (node : Node) (options : List (Option Units)) (written : Bool) (path : String) (item : Node) :
    List Issue :=
  report ((item.stringAttribute "choices").isNone == (item.stringAttribute "value").isNone) "invalid-previous-answer"
      "Previous requires choices or value, but not both" path item.offset ++
    choicesIssues node item options written path "previous" "Previous"
      "A previous written answer cannot select options"

/-- `#questionChoices` -/
def questionChoices (node : Node) (path : String) : List Issue :=
  let written := node.stringAttribute "response" == some (utf16 "text")
  let options := ids (elements node "Option")
  let criteria := ids (elements node "Criterion")
  let criterionCount := (elements node "Criterion").length
  let previous := elements node "Previous"
  report (written && node.stringAttribute "multiple" != some (utf16 "false")) "text-question-multiple"
      "A written response cannot be multiple" path node.offset ++
    report (written && decide (0 < options.length)) "text-question-options" "A written response cannot have options"
      path node.offset ++
    report (decide (MAX_CRITERIA < criterionCount) || criteria.length != criterionCount) "invalid-criteria"
      ("A question has at most " ++ toString MAX_CRITERIA ++ " distinct criteria") path node.offset ++
    report (written && decide (0 < criterionCount)) "text-question-criteria" "A written response cannot have criteria"
      path node.offset ++
    (elements node "Answer").flatMap (answerIssues node options criteria criterionCount written path) ++
    report (1 < previous.length) "duplicate-previous" "Question accepts at most one Previous" path node.offset ++
    previous.flatMap (previousIssues node options written path)

/-! ## Links, images and tables -/

/-- `#link` -/
def linkOf (library : Library) (url : Units) (path : String) (offset : Option Nat) : List Issue :=
  if !hasScheme url then []
  else
    match library.protocol url with
    | none => [⟨"bad-link", "Link is not a valid URL", path, offset⟩]
    | some protocol =>
      report (!oneOf LINK_PROTOCOLS protocol) "bad-link-protocol"
        ("`" ++ String.ofList (protocol.map Char.ofNat) ++ "` links are not allowed") path offset

/-- `#image`, but for the count. -/
def imageOf (library : Library) (url : Units) (path : String) (offset : Option Nat) : List Issue :=
  if isHostedImage url then []
  else
    match library.protocol url with
    | none =>
      [⟨"bad-image", "Image must be an absolute URL or a Chopin-hosted /images/ path", path, offset⟩]
    | some protocol =>
      report (!oneOf IMAGE_PROTOCOLS protocol) "bad-image-protocol"
        ("`" ++ String.ofList (protocol.map Char.ofNat) ++ "` images are not allowed") path offset

/-- `#table` -/
def tableOf (rows : List Node) (path : String) (offset : Option Nat) : List Issue :=
  report (MAX_TABLE_ROWS < rows.length) "table-too-tall"
      ("Tables are limited to " ++ toString MAX_TABLE_ROWS ++ " rows") path offset ++
    report (MAX_TABLE_COLUMNS < rows.foldl (fun columns row ↦ max columns row.children.length) 0) "table-too-wide"
      ("Tables are limited to " ++ toString MAX_TABLE_COLUMNS ++ " columns") path offset

/-- Footnote identifiers; mdast normalises `identifier` to lower case, and ULIDs are upper case. -/
def footnoteOf (library : Library) (identifier : Units) (path : String) (offset : Option Nat) : List Issue :=
  report (!isUlid (library.upperCase identifier)) "bad-footnote-id" "Footnote identifiers must be ULIDs" path offset

/-- The checks of Markdown's own nodes. -/
def markdownOf (library : Library) (content : Markdown) (children : List Node) (path : String) (offset : Option Nat) :
    Findings :=
  match content with
  | .link url => ⟨linkOf library url path offset, 0⟩
  | .image url => ⟨imageOf library url path offset, 1⟩
  | .footnoteReference identifier => ⟨footnoteOf library identifier path offset, 0⟩
  | .footnoteDefinition identifier => ⟨footnoteOf library identifier path offset, 0⟩
  | .plain type _ => ⟨if type = "table" then tableOf children path offset else [], 0⟩

/-! ## The walk -/

/-- Why a node is not looked at, if it is not. -/
def refused (node : Node) (path : String) (depth : Nat) : Option Issue :=
  if MAX_DEPTH < depth then
    some ⟨"too-deep", "Content nests deeper than " ++ toString MAX_DEPTH ++ " levels", path, node.offset⟩
  else if FORBIDDEN_NODES.contains node.type then
    some ⟨"forbidden-node", "`" ++ node.type ++ "` is not allowed in plans", path, node.offset⟩
  else if !(NODES.contains node.type) then
    some ⟨"unknown-node", "`" ++ node.type ++ "` is not part of the plan dialect", path, node.offset⟩
  else none

/-- The component of a node, or why it has none. -/
def componentOf (node : Node) (path : String) : Except Issue Component :=
  match node.name.filter (· ≠ "") with
  | none => .error ⟨"fragment", "JSX fragments are not allowed in plans", path, node.offset⟩
  | some name =>
    match lookup (some name) with
    | none => .error ⟨"unknown-component", "`" ++ name ++ "` is not a plan component", path, node.offset⟩
    | some spec => .ok spec

/-- The kind of component that an element is written as. -/
def expectedKind : Node → Kind
  | .jsx .flow _ _ _ _ => .flow
  | _ => .text

def Kind.label : Kind → String
  | .flow => "flow"
  | .text => "text"
  | .both => "both"

/-- Where a component stands: `ancestors` are the components above it, the nearest last. -/
def placementOf (node : Node) (spec : Component) (path : String) (depth : Nat) (ancestors : List String) : List Issue :=
  report (spec.topLevel && depth != 1) "bad-layout-placement" ("`" ++ spec.name ++ "` must be a top-level block") path
      node.offset ++
    report (spec.kind != .both && spec.kind != expectedKind node) "wrong-kind"
      ("`" ++ spec.name ++ "` is a " ++ spec.kind.label ++ " component but was used as " ++ (expectedKind node).label)
      path node.offset ++
    report (spec.parent.any fun parents ↦ !(ancestors.getLast?.any parents.contains)) "bad-parent"
      ("`" ++ spec.name ++ "` must be a direct child of " ++ " or ".intercalate (spec.parent.getD [])) path
      node.offset ++
    match ancestors.find? fun ancestor ↦ (lookup (some ancestor)).any (·.forbids.contains spec.name) with
    | none => []
    | some ancestor =>
      [⟨"bad-nesting", "`" ++ spec.name ++ "` cannot appear inside `" ++ ancestor ++ "`", path, node.offset⟩]

/-- `#component`, but for what is beneath it. -/
def checksOf (library : Library) (node : Node) (spec : Component) (path : String) (depth : Nat)
    (ancestors : List String) (parent : Option Node) : Findings :=
  ⟨placementOf node spec path depth ancestors ++ attributesOf node spec path ++ contentOf node spec path parent ++
      (if spec.name = "Question" then questionChoices node path else []) ++
      (if spec.name = "Image" then imageOf library ((node.stringAttribute "src").getD []) path node.offset else []),
    if spec.name = "Image" then 1 else 0⟩

mutual

/-- `#walk`; `parent` is the component directly above, if there is one. -/
def walk (library : Library) (path : String) (depth : Nat) (ancestors : List String) (parent : Option Node) :
    Node → Findings
  | .text value offset => ⟨(refused (.text value offset) path depth).toList, 0⟩
  | .markdown content children offset =>
    match refused (.markdown content children offset) path depth with
    | some issue => ⟨[issue], 0⟩
    | none =>
      markdownOf library content children path offset ++ descend library path depth ancestors none [] children
  | .jsx kind name attributes children offset =>
    match refused (.jsx kind name attributes children offset) path depth with
    | some issue => ⟨[issue], 0⟩
    | none =>
      match componentOf (.jsx kind name attributes children offset) path with
      | .error issue => ⟨[issue], 0⟩
      | .ok spec =>
        checksOf library (.jsx kind name attributes children offset) spec path depth ancestors parent ++
          descend library path depth (ancestors ++ [spec.name]) (some (.jsx kind name attributes children offset)) []
            children

/-- `#descend`, with the labels of the children before. -/
def descend (library : Library) (path : String) (depth : Nat) (ancestors : List String) (parent : Option Node)
    (labels : List String) : List Node → Findings
  | [] => ⟨[], 0⟩
  | child :: rest =>
    walk library (path ++ " > " ++ child.label ++ "[" ++ toString (labels.count child.label) ++ "]") (depth + 1)
        ancestors parent child ++
      descend library path depth ancestors parent (labels ++ [child.label]) rest

end

/-- Every issue of a parsed plan; `bytes` is the size of its source, when it is supplied. -/
def validate (library : Library) (root : Node) (bytes : Option Nat) : List Issue :=
  let found := walk library "root" 0 [] none root
  report (bytes.any fun bytes ↦ decide (MAX_SOURCE_BYTES < bytes)) "source-too-large"
      ("Plan exceeds the " ++ toString (MAX_SOURCE_BYTES / 1024) ++ " KiB limit") "root" none ++
    found.issues ++
    report (MAX_IMAGES < found.images) "too-many-images" ("Plan exceeds " ++ toString MAX_IMAGES ++ " images") "root"
      none

end Chopin.Mdx
