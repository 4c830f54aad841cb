import Offside.Grammar.Declarations
import Offside.Proofs.Grammar.Steps

/-!
# Derivations

Which tokens every node of a syntax tree is read from, and where it is said to be. A derivation
splits the tokens of a node in two: those that its location spans, and those before them that the
location leaves out.

* `Location.Covers`: a location spans the second part of some tokens, which is all of them if and
  only if the first part is empty, and contains the locations of the parts of a node.
* `TypeExpr.ReadFrom`, `Expr.ReadFrom`, `Reference.ReadFrom`, `Binding.ReadFrom`,
  `Statement.ReadFrom`, `Declaration.ReadFrom`: the nodes with their tokens. Only the application of
  a binary operator leaves tokens out by itself: its location begins with the operator, so that its
  left operand is outside. A backtick call, and a call as a statement, leave out what the expression
  that they begin with leaves out.
* `Expr.ListFrom`, `Expr.ArgsFrom`, `Statement.ListFrom`: the same for sequences of nodes.
-/

namespace Offside

open Token Parse

/-- A location spans the tokens `covered` of a node, which are all its tokens `skipped ++ covered`
if and only if none are skipped, and contains the locations of parts of it. -/
structure Location.Covers (l : Location) (skipped covered : List Token) (parts : List Location) :
    Prop where
  /-- The location runs from the first covered token to the last. -/
  spans : l.Spans covered
  /-- It is exact if and only if no token is skipped. -/
  exact_iff : l.Spans (skipped ++ covered) ↔ skipped = []
  /-- It contains the parts. -/
  contains : ∀ part ∈ parts, part.Within l

/-! ## Types -/

/-- The locations of the nodes right below a type. -/
def TypeExpr.parts : TypeExpr → List Location
  | ground .. | unknown .. => []
  | arrow _ _ domain codomain => [domain.loc, codomain.loc]
  | buffer _ _ _ element => [element.loc]
  | pointer _ _ pointee => [pointee.loc]
  | tuple _ _ members => members.map loc

/-- The tokens between the brackets of a buffer type. -/
inductive BufferSize.ReadFrom : List Token → BufferSize → Prop
  | literal {t : Token} (kind : t.kind = .number) (numeral : IsNumeral t.text) :
      BufferSize.ReadFrom [t] (.literal t.text)
  | unknown : BufferSize.ReadFrom [] .unknown
  | external {t : Token} (kind : t.kind = .identifier) (name : IsName t.text) :
      BufferSize.ReadFrom [t] (.external t.text)

mutual

/-- A type and the tokens that it is read from. -/
inductive TypeExpr.ReadFrom : List Token → TypeExpr → Prop
  | unknown {t : Token} (word : t.is .identifier "_") :
      TypeExpr.ReadFrom [t] (.unknown t.loc .immutable)
  | ground {t : Token} {g : Ground} (kind : t.kind = .identifier)
      (name : Ground.ofName? t.text = some g) : TypeExpr.ReadFrom [t] (.ground t.loc .immutable g)
  | unit {t : Token} (bracket : t.isBlock (.bracketed .paren)) (interior : t.children = []) :
      TypeExpr.ReadFrom [t] (.ground t.loc .immutable .unit)
  | paren {t : Token} {type : TypeExpr} (bracket : t.isBlock (.bracketed .paren))
      (interior : TypeExpr.ReadFrom t.children type)
      (located : t.loc.Covers [] [t] type.parts) :
      TypeExpr.ReadFrom [t] (type.relocate t.loc)
  | tuple {t : Token} {members : List TypeExpr} (bracket : t.isBlock (.bracketed .paren))
      (interior : TypeExpr.ListFrom true t.children members)
      (located : t.loc.Covers [] [t] (members.map loc)) :
      TypeExpr.ReadFrom [t] (.tuple t.loc .immutable members)
  | varMark {t : Token} {ts : List Token} {type : TypeExpr} {l : Location}
      (word : t.isReserved .varMark) (inner : TypeExpr.ReadFrom ts type)
      (located : l.Covers [] (t :: ts) type.parts) :
      TypeExpr.ReadFrom (t :: ts) ((type.withModality .mutable).relocate l)
  | pointer {t : Token} {ts : List Token} {pointee : TypeExpr} {l : Location}
      (star : TypeExpr.isStar t) (inner : TypeExpr.ReadFrom ts pointee)
      (located : l.Covers [] (t :: ts) [pointee.loc]) :
      TypeExpr.ReadFrom (t :: ts) (.pointer l .immutable pointee)
  | buffer {t : Token} {ts : List Token} {size : BufferSize} {element : TypeExpr} {l : Location}
      (bracket : t.isBlock (.bracketed .square)) (interior : BufferSize.ReadFrom t.children size)
      (inner : TypeExpr.ReadFrom ts element) (located : l.Covers [] (t :: ts) [element.loc]) :
      TypeExpr.ReadFrom (t :: ts) (.buffer l .immutable size element)
  | arrow {t : Token} {ts us : List Token} {domain codomain : TypeExpr} {l : Location}
      (left : TypeExpr.ReadFrom ts domain) (sign : t.is .operator "->")
      (right : TypeExpr.ReadFrom us codomain)
      (located : l.Covers [] (ts ++ t :: us) [domain.loc, codomain.loc]) :
      TypeExpr.ReadFrom (ts ++ t :: us) (.arrow l .immutable domain codomain)

/-- Types with commas between them, whether there is a comma, and their tokens. -/
inductive TypeExpr.ListFrom : Bool → List Token → List TypeExpr → Prop
  | nil : TypeExpr.ListFrom false [] []
  | last {ts : List Token} {type : TypeExpr} (h : TypeExpr.ReadFrom ts type) :
      TypeExpr.ListFrom false ts [type]
  | more {ts us : List Token} {type : TypeExpr} {types : List TypeExpr} {t : Token} {comma : Bool}
      (h : TypeExpr.ReadFrom ts type) (separator : t.kind = .comma)
      (others : TypeExpr.ListFrom comma us types) :
      TypeExpr.ListFrom true (ts ++ t :: us) (type :: types)

end

/-! ## Expressions -/

/-- The locations of the nodes right below an expression. -/
def Expr.parts : Expr → List Location
  | addressOf _ target => [target.loc]
  | apply _ _ function args => function.loc :: args.map loc
  | asType _ value type => [value.loc, type.loc]
  | buffer _ elements => elements.map loc
  | ifThen _ condition yes no => [condition.loc, yes.loc, no.loc]
  | index _ base offset => [base.loc, offset.loc]
  | number .. | ident .. => []
  | tuple _ elements => elements.map loc
  | valueAt _ address => [address.loc]

mutual

/-- An expression and the tokens that it is read from, those that its location skips first. -/
inductive Expr.ReadFrom : (skipped covered : List Token) → Expr → Prop
  | ident {t : Token} (kind : t.kind = .identifier) (name : IsName t.text) :
      Expr.ReadFrom [] [t] (.ident t.loc t.text)
  | number {t : Token} (kind : t.kind = .number) (numeral : IsNumeral t.text) :
      Expr.ReadFrom [] [t] (.number t.loc t.text)
  | paren {t : Token} {s c : List Token} {e : Expr} (bracket : t.isBlock (.bracketed .paren))
      (interior : t.children = s ++ c) (inner : Expr.ReadFrom s c e)
      (located : t.loc.Covers [] [t] e.parts) : Expr.ReadFrom [] [t] (e.relocate t.loc)
  | tuple {t : Token} {comma : Bool} {elements : List Expr}
      (bracket : t.isBlock (.bracketed .paren))
      (interior : Expr.ListFrom comma t.children elements) (shape : comma = true ∨ elements = [])
      (located : t.loc.Covers [] [t] (elements.map Expr.loc)) :
      Expr.ReadFrom [] [t] (.tuple t.loc elements)
  | buffer {t : Token} {comma : Bool} {elements : List Expr}
      (bracket : t.isBlock (.bracketed .square))
      (interior : Expr.ListFrom comma t.children elements)
      (located : t.loc.Covers [] [t] (elements.map Expr.loc)) :
      Expr.ReadFrom [] [t] (.buffer t.loc elements)
  | negate {t : Token} {ts : List Token} {operand : Expr} {l : Location}
      (sign : t.isReserved .negate) (inner : Expr.ReadFrom [] ts operand)
      (located : l.Covers [] (t :: ts) [t.loc, operand.loc]) :
      Expr.ReadFrom [] (t :: ts) (.apply l .curried (.ident t.loc t.text) [operand])
  | valueAt {t : Token} {ts : List Token} {address : Expr} {l : Location}
      (sign : t.isReserved .valueAt) (inner : Expr.ReadFrom [] ts address)
      (located : l.Covers [] (t :: ts) [address.loc]) :
      Expr.ReadFrom [] (t :: ts) (.valueAt l address)
  | addressOf {t : Token} {ts : List Token} {target : Place} {l : Location}
      (sign : t.isReserved .addressOf) (inner : Expr.ReadFrom [] ts target.toExpr)
      (located : l.Covers [] (t :: ts) [target.loc]) :
      Expr.ReadFrom [] (t :: ts) (.addressOf l target)
  | ifThen {t yesBlock noBlock : Token} {s c sYes cYes sNo cNo elseTokens : List Token}
      {condition yes no : Expr} {l : Location} (word : t.isReserved .ifThen)
      (test : Expr.ReadFrom s c condition) (yesBody : IsBody yesBlock)
      (yesInterior : yesBlock.children = sYes ++ cYes) (yesFrom : Expr.ReadFrom sYes cYes yes)
      (otherwise : IsElse elseTokens) (noBody : IsBody noBlock)
      (noInterior : noBlock.children = sNo ++ cNo) (noFrom : Expr.ReadFrom sNo cNo no)
      (located : l.Covers [] (t :: (s ++ c ++ yesBlock :: elseTokens ++ [noBlock]))
        [condition.loc, yes.loc, no.loc]) :
      Expr.ReadFrom [] (t :: (s ++ c ++ yesBlock :: elseTokens ++ [noBlock]))
        (.ifThen l condition yes no)
  | index {t : Token} {ts s c : List Token} {base offset : Expr} {l : Location}
      (left : Expr.ReadFrom [] ts base) (bracket : t.isBlock (.bracketed .square))
      (interior : t.children = s ++ c) (inner : Expr.ReadFrom s c offset)
      (located : l.Covers [] (ts ++ [t]) [base.loc, offset.loc]) :
      Expr.ReadFrom [] (ts ++ [t]) (.index l base offset)
  | listCall {t : Token} {comma : Bool} {ts : List Token} {function : Expr} {args : List Expr}
      {l : Location} (left : Expr.ReadFrom [] ts function)
      (bracket : t.isBlock (.bracketed .paren)) (interior : Expr.ListFrom comma t.children args)
      (located : l.Covers [] (ts ++ [t]) (function.loc :: args.map Expr.loc)) :
      Expr.ReadFrom [] (ts ++ [t]) (.apply l .tupled function args)
  | juxtaposition {ts us : List Token} {function : Expr} {args : List Expr} {l : Location}
      (left : Expr.ReadFrom [] ts function) (some : args ≠ []) (right : Expr.ArgsFrom us args)
      (located : l.Covers [] (ts ++ us) (function.loc :: args.map Expr.loc)) :
      Expr.ReadFrom [] (ts ++ us) (.apply l .curried function args)
  | ascription {t : Token} {ts us : List Token} {value : Expr} {type : TypeExpr} {l : Location}
      (left : Expr.ReadFrom [] ts value) (sign : t.isReserved .asType)
      (right : TypeExpr.ReadFrom us type)
      (located : l.Covers [] (ts ++ t :: us) [value.loc, type.loc]) :
      Expr.ReadFrom [] (ts ++ t :: us) (.asType l value type)
  | backtick {t : Token} {s c sFun cFun sRight cRight : List Token} {left function right : Expr}
      {l : Location} (leftFrom : Expr.ReadFrom s c left)
      (bracket : t.isBlock (.bracketed .backtick)) (interior : t.children = sFun ++ cFun)
      (functionFrom : Expr.ReadFrom sFun cFun function)
      (rightFrom : Expr.ReadFrom sRight cRight right)
      (located : l.Covers s (c ++ t :: (sRight ++ cRight)) [function.loc, left.loc, right.loc]) :
      Expr.ReadFrom s (c ++ t :: (sRight ++ cRight)) (.apply l .curried function [left, right])
  | operator {t : Token} {s c sRight cRight : List Token} {left right : Expr} {power : Nat}
      {l : Location} (leftFrom : Expr.ReadFrom s c left) (kind : t.kind = .operator)
      (binary : bindingPower? t.text = some power) (rightFrom : Expr.ReadFrom sRight cRight right)
      (located : l.Covers (s ++ c) (t :: (sRight ++ cRight)) [t.loc, right.loc])
      (outside : ¬ left.loc.Within l) :
      Expr.ReadFrom (s ++ c) (t :: (sRight ++ cRight))
        (.apply l .curried (.ident t.loc t.text) [left, right])

/-- Expressions with commas between them, whether there is a comma, and their tokens. -/
inductive Expr.ListFrom : Bool → List Token → List Expr → Prop
  | nil : Expr.ListFrom false [] []
  | last {s c : List Token} {e : Expr} (h : Expr.ReadFrom s c e) :
      Expr.ListFrom false (s ++ c) [e]
  | more {s c us : List Token} {e : Expr} {es : List Expr} {t : Token} {comma : Bool}
      (h : Expr.ReadFrom s c e) (separator : t.kind = .comma)
      (others : Expr.ListFrom comma us es) :
      Expr.ListFrom true (s ++ c ++ t :: us) (e :: es)

/-- Juxtaposed arguments and their tokens. -/
inductive Expr.ArgsFrom : List Token → List Expr → Prop
  | nil : Expr.ArgsFrom [] []
  | cons {ts us : List Token} {e : Expr} {es : List Expr} (h : Expr.ReadFrom [] ts e)
      (others : Expr.ArgsFrom us es) : Expr.ArgsFrom (ts ++ us) (e :: es)

end

/-! ## Introduced names -/

/-- A name that is introduced and its tokens. An annotation replaces the one before it. -/
inductive Reference.ReadFrom : List Token → Reference → Prop
  | plain {t : Token} (kind : t.kind = .identifier) (name : IsName t.text) :
      Reference.ReadFrom [t] ⟨t.loc, false, t.text, .unknown t.loc.endPoint .immutable⟩
  | marked {t u : Token} {l : Location} (word : t.isReserved .varMark)
      (kind : u.kind = .identifier) (name : IsName u.text) (located : l.Covers [] [t, u] []) :
      Reference.ReadFrom [t, u] ⟨l, true, u.text, .unknown u.loc.endPoint .immutable⟩
  | annotated {t : Token} {ts us : List Token} {r : Reference} {type : TypeExpr} {l : Location}
      (left : Reference.ReadFrom ts r) (sign : t.isReserved .asType)
      (right : TypeExpr.ReadFrom us type) (located : l.Covers [] (ts ++ t :: us) [type.loc]) :
      Reference.ReadFrom (ts ++ t :: us) { r with loc := l, type := type }

/-- A binding and its tokens. -/
inductive Binding.ReadFrom : List Token → Binding → Prop
  | mk {t : Token} {ts us s c : List Token} {name : Reference} {names : List Reference}
      {value : Expr} {l : Location} (first : Reference.ReadFrom ts name)
      (others : AfterCommas Reference.ReadFrom us names) (sign : t.is .operator "=")
      (right : Expr.ReadFrom s c value)
      (located : l.Covers [] (ts ++ us ++ t :: (s ++ c))
        (value.loc :: (name :: names).map Reference.loc)) :
      Binding.ReadFrom (ts ++ us ++ t :: (s ++ c)) ⟨l, name :: names, value⟩

/-- The bindings of a `let` and their tokens. -/
inductive Binding.ListFrom : List Token → List Binding → Prop
  | mk {ts us : List Token} {b : Binding} {bs : List Binding} (first : Binding.ReadFrom ts b)
      (others : AfterCommas Binding.ReadFrom us bs) : Binding.ListFrom (ts ++ us) (b :: bs)

/-! ## Statements -/

mutual

/-- A statement inside loops and the tokens that it is read from, those that its location skips
first. -/
inductive Statement.ReadFrom :
    (loops : List (Option String)) → (skipped covered : List Token) → Statement → Prop
  | assign {loops : List (Option String)}
      {t : Token} {ts s c : List Token} {target : Place} {value : Expr} {l : Location}
      (left : Expr.ReadFrom [] ts target.toExpr) (sign : t.is .operator "=")
      (right : Expr.ReadFrom s c value)
      (located : l.Covers [] (ts ++ t :: (s ++ c)) [target.loc, value.loc]) :
      Statement.ReadFrom loops [] (ts ++ t :: (s ++ c)) (.assign l target value)
  | call {loops : List (Option String)}
      {s c : List Token} {l : Location} {style : CallStyle} {function : Expr}
      {args : List Expr} (application : Expr.ReadFrom s c (.apply l style function args)) :
      Statement.ReadFrom loops s c (.call l style function args)
  | breakInnermost {loops : List (Option String)}
      {t : Token} (word : t.isReserved .breakLoop) (inside : loops ≠ []) :
      Statement.ReadFrom loops [] [t] (.breakLoop t.loc 0)
  | breakLabelled {loops : List (Option String)}
      {t u : Token} {depth : Nat} {l : Location} (word : t.isReserved .breakLoop)
      (label : u.kind = .identifier) (inside : loops.findIdx? (· == some u.text) = some depth)
      (located : l.Covers [] [t, u] []) :
      Statement.ReadFrom loops [] [t, u] (.breakLoop l depth)
  | forever {loops : List (Option String)}
      {t block : Token} {label? : Option Token} {body : List Statement} {l : Location}
      (word : t.isReserved .forever)
      (label : ∀ u, label? = some u → u.kind = .identifier ∧ IsName u.text)
      (isBody : IsBody block)
      (interior : Statement.ListFrom (label?.map Token.text :: loops) block.children body)
      (located : l.Covers [] (t :: (label?.toList ++ [block])) (body.map Statement.loc)) :
      Statement.ReadFrom loops [] (t :: (label?.toList ++ [block]))
        (.forever l (label?.map Token.text) body)
  | branch {loops : List (Option String)}
      {t block : Token} {s c : List Token} {condition : Expr} {yes : List Statement}
      {l : Location} (word : t.isReserved .ifThen) (test : Expr.ReadFrom s c condition)
      (isBody : IsBody block) (interior : Statement.ListFrom loops block.children yes)
      (located : l.Covers [] (t :: (s ++ c ++ [block])) (condition.loc :: yes.map Statement.loc)) :
      Statement.ReadFrom loops [] (t :: (s ++ c ++ [block])) (.branch l condition yes [])
  | branchElse {loops : List (Option String)}
      {t yesBlock noBlock : Token} {s c elseTokens : List Token} {condition : Expr}
      {yes no : List Statement} {l : Location} (word : t.isReserved .ifThen)
      (test : Expr.ReadFrom s c condition) (yesBody : IsBody yesBlock)
      (yesFrom : Statement.ListFrom loops yesBlock.children yes) (otherwise : IsElse elseTokens)
      (noBody : IsBody noBlock) (noFrom : Statement.ListFrom loops noBlock.children no)
      (located : l.Covers [] (t :: (s ++ c ++ yesBlock :: elseTokens ++ [noBlock]))
        (condition.loc :: (yes ++ no).map Statement.loc)) :
      Statement.ReadFrom loops [] (t :: (s ++ c ++ yesBlock :: elseTokens ++ [noBlock]))
        (.branch l condition yes no)
  | branchChain {loops : List (Option String)}
      {t yesBlock u : Token} {s c elseTokens ts : List Token} {condition : Expr}
      {yes : List Statement} {no : Statement} {l : Location} (word : t.isReserved .ifThen)
      (test : Expr.ReadFrom s c condition) (yesBody : IsBody yesBlock)
      (yesFrom : Statement.ListFrom loops yesBlock.children yes) (otherwise : IsElse elseTokens)
      (chained : u.isReserved .ifThen) (noFrom : Statement.ReadFrom loops [] (u :: ts) no)
      (located : l.Covers [] (t :: (s ++ c ++ yesBlock :: elseTokens ++ u :: ts))
        (condition.loc :: (yes ++ [no]).map Statement.loc)) :
      Statement.ReadFrom loops [] (t :: (s ++ c ++ yesBlock :: elseTokens ++ u :: ts))
        (.branch l condition yes [no])
  | letBind {loops : List (Option String)}
      {t : Token} {ts : List Token} {bindings : List Binding} {l : Location}
      (word : t.isReserved .letBind) (all : Binding.ListFrom ts bindings)
      (located : l.Covers [] (t :: ts) (bindings.map Binding.loc)) :
      Statement.ReadFrom loops [] (t :: ts) (.letBind l bindings)
  | nested {loops : List (Option String)} {t : Token} {body : List Statement} (isBody : IsBody t)
      (interior : Statement.ListFrom loops t.children body)
      (located : t.loc.Covers [] [t] (body.map Statement.loc)) :
      Statement.ReadFrom loops [] [t] (.nested t.loc body)
  | returnValue {loops : List (Option String)}
      {t : Token} {s c : List Token} {value : Expr} {l : Location}
      (word : t.isReserved .returnValue) (right : Expr.ReadFrom s c value)
      (located : l.Covers [] (t :: (s ++ c)) [value.loc]) :
      Statement.ReadFrom loops [] (t :: (s ++ c)) (.returnValue l value)

/-- Statements inside loops, with semicolons between them, and their tokens. -/
inductive Statement.ListFrom : List (Option String) → List Token → List Statement → Prop
  | nil {loops : List (Option String)} : Statement.ListFrom loops [] []
  | last {loops : List (Option String)} {s c : List Token} {x : Statement}
      (h : Statement.ReadFrom loops s c x) : Statement.ListFrom loops (s ++ c) [x]
  | more {loops : List (Option String)} {s c us : List Token} {x : Statement}
      {xs : List Statement} {t : Token} (h : Statement.ReadFrom loops s c x)
      (separator : t.kind = .semicolon) (others : Statement.ListFrom loops us xs) :
      Statement.ListFrom loops (s ++ c ++ t :: us) (x :: xs)

end

/-! ## Declarations -/

/-- A declaration and its tokens. -/
inductive Declaration.ReadFrom : List Token → Declaration → Prop
  | function {t name list block : Token} {comma : Bool} {ts : List Token}
      {params : List Reference} {result : TypeExpr} {body : List Statement} {l : Location}
      (word : t.isReserved .define) (kind : name.kind = .identifier) (isName : IsName name.text)
      (bracket : list.isBlock (.bracketed .paren))
      (interior : Separated .comma Reference.ReadFrom comma list.children params)
      (type : TypeExpr.ReadFrom ts result) (isBody : IsBody block)
      (statements : Statement.ListFrom [] block.children body)
      (located : l.Covers [] (t :: name :: list :: (ts ++ [block]))
        (result.loc :: params.map Reference.loc ++ body.map Statement.loc)) :
      Declaration.ReadFrom (t :: name :: list :: (ts ++ [block]))
        (.function l name.text params result body)
  | letBind {t : Token} {ts : List Token} {bindings : List Binding} {l : Location}
      (word : t.isReserved .letBind) (all : Binding.ListFrom ts bindings)
      (located : l.Covers [] (t :: ts) (bindings.map Binding.loc)) :
      Declaration.ReadFrom (t :: ts) (.letBind l bindings)

end Offside
