import Sbe.Token

/-!
**Spans of a token stream.**

An element is either one token or an opening token, the elements inside it and the token that closes
it under the same name; the opening token says how many tokens that makes. `check` tests that a
stream is exactly one element, and collects the types it refers to: the composites, enums and sets
that stand directly inside a field or a composite.
-/

namespace Sbe.Span

/-- The cause for a bad span of a token at an index. -/
def unbalanced (index : Nat) (token : Token) (reason : SpanFault) : SchemaError :=
  .unbalanced token.name token.signal index reason

/-- The tokens inside the element that starts with `token`, and the tokens after it. The element
must end within `token :: rest`, in the token that closes it. -/
def element (index : Nat) (token : Token) (rest : List Token) :
    Result (List Token × List Token) :=
  if token.signal.isEnd then .refuse (unbalanced index token .strayEnd)
  else
    match token.signal.closing? with
    | none => .ok ([], rest)
    | some closing =>
      let count := token.span
      if count < 2 then .refuse (unbalanced index token (.overrun count))
      else if wordBound ≤ index + count then .fault
      else
        match rest.drop (count - 2) with
        | [] => .refuse (unbalanced index token (.overrun count))
        | last :: after =>
          if last.signal = closing ∧ last.name = token.name then .ok (rest.take (count - 2), after)
          else
            .refuse <| unbalanced index token <|
              .misclosed closing token.name (index + count - 1) last.signal last.name

theorem element_length {index : Nat} {token : Token} {rest inner after : List Token}
    (split : element index token rest = .ok (inner, after)) :
    inner.length ≤ rest.length ∧ after.length ≤ rest.length := by
  unfold element at split
  split at split
  · cases split
  · split at split
    · cases split; simp
    · dsimp only at split
      split at split
      · cases split
      · split at split
        · cases split
        · split at split
          · cases split
          · next last after' dropped =>
            split at split
            · cases split
              have sizes := congrArg List.length dropped
              simp only [List.length_drop, List.length_cons] at sizes
              simp only [List.length_take]
              omega
            · cases split

/-- Whether an element inside a parent refers to a type by name. -/
def isReference (parent : Option Signal) (token : Token) : Bool :=
  token.signal.opensType && (parent == some .beginField || parent == some .beginComposite)

/-- Tests that tokens from an index on are a sequence of elements, and collects the references among
them in the order of the stream. -/
def references (parent : Option Signal) (index : Nat) : List Token → Result (List Token)
  | [] => .ok []
  | token :: rest =>
    match split : element index token rest with
    | .error halt => .error halt
    | .ok (inner, after) => do
      have := element_length split
      let inside ← references (some token.signal) (index + 1) inner
      let others ← references parent (index + 1 + (rest.length - after.length)) after
      pure ((if isReference parent token then [token] else []) ++ inside ++ others)
termination_by tokens => tokens.length
decreasing_by all_goals simp only [List.length_cons]; omega

/-- Tests that a stream is exactly one element, and collects the references in it. -/
def check (list : TokenList) : List Token → Result (List Token)
  | [] => .refuse (.emptyTokens list)
  | token :: rest => do
    let (inner, after) ← element 0 token rest
    let found ← references (some token.signal) 1 inner
    match after with
    | [] => pure found
    | extra :: _ =>
      .refuse (.unexpectedToken extra.name extra.signal (1 + (rest.length - after.length)))

end Sbe.Span
