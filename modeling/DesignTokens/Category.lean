import DesignTokens.Text.Basic

/-!
# Categories and scopes

The kinds of design tokens, and the places of a component source in which style
values are found.
-/

namespace DesignTokens

inductive Category where
  | color
  | typography
  | spacing
  | borderRadius
  | shadow
deriving DecidableEq, Repr

namespace Category

def all : List Category :=
  [.color, .typography, .spacing, .borderRadius, .shadow]

theorem mem_all (c : Category) : c ∈ all := by
  cases c <;> decide

def name : Category → Text
  | .color => "color".toList
  | .typography => "typography".toList
  | .spacing => "spacing".toList
  | .borderRadius => "borderRadius".toList
  | .shadow => "shadow".toList

def ofName? (t : Text) : Option Category :=
  all.find? fun c => c.name = t

end Category

inductive Scope where
  | inlineStyle
  | utilityClass
  | prop
  | styledComponent
deriving DecidableEq, Repr

namespace Scope

def all : List Scope :=
  [.inlineStyle, .utilityClass, .prop, .styledComponent]

def name : Scope → Text
  | .inlineStyle => "inline-style".toList
  | .utilityClass => "utility-class".toList
  | .prop => "prop".toList
  | .styledComponent => "styled-component".toList

def ofName? (t : Text) : Option Scope :=
  all.find? fun s => s.name = t

end Scope
end DesignTokens
