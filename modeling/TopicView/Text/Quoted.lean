import TopicView.Text.Combining
import TopicView.Text.Hidden
import TopicView.Text.Numeral

/-!
# Quoted text

A text between quotes in a message: what could not be seen, or would be drawn onto its neighbour, is
written as an escape.
-/

namespace TopicView.Text

def quotedChar (c : Char) : List Char :=
  if c = '"' then ['\\', '"']
  else if c = '\\' then ['\\', '\\']
  else if c = '\n' then ['\\', 'n']
  else if c = '\r' then ['\\', 'r']
  else if c = '\t' then ['\\', 't']
  else if c = '\x00' then ['\\', '0']
  else if isCombining c || isHidden c then ['\\', 'u', '\x7b'] ++ Numeral.hex c.toNat ++ ['\x7d']
  else [c]

def quoted (s : String) : String := String.ofList ('"' :: s.toList.flatMap quotedChar ++ ['"'])

end TopicView.Text
