/-
# The vocabulary of commands

Every command has an English name, taken in any case, and a Chinese one; every
keyword has an English and a Chinese spelling.

Key definitions: `CommandKind`, `CommandKind.lookup?`, `Keyword`.
-/

namespace Manuscript

/-- What a command does. -/
inductive CommandKind where
  | function
  | label
  | jump
  | call
  | ret
  | branch
  | character
  | sprite
  | scene
  | switchScene
  | showCharacter
  | hideCharacter
  | setState
  | play
  | comment
  | sayMode
deriving Repr, DecidableEq

namespace CommandKind

/-- All kinds of commands. -/
def all : List CommandKind := [
  function, label, jump, call, ret, branch, character, sprite, scene, switchScene, showCharacter,
  hideCharacter, setState, play, comment, sayMode]

/-- The English name of a command. -/
def english : CommandKind → String
  | function => "Function"
  | label => "Label"
  | jump => "Jump"
  | call => "Call"
  | ret => "Return"
  | branch => "Branch"
  | character => "Character"
  | sprite => "Sprite"
  | scene => "Scene"
  | switchScene => "SwitchScene"
  | showCharacter => "Show"
  | hideCharacter => "Hide"
  | setState => "SetState"
  | play => "Play"
  | comment => "Comment"
  | sayMode => "SayMode"

/-- The Chinese name of a command. -/
def chinese : CommandKind → String
  | function => "函数"
  | label => "标签"
  | jump => "跳转"
  | call => "调用"
  | ret => "返回"
  | branch => "选项"
  | character => "角色"
  | sprite => "立绘"
  | scene => "场景"
  | switchScene => "切换场景"
  | showCharacter => "显示"
  | hideCharacter => "隐藏"
  | setState => "状态"
  | play => "播放"
  | comment => "注释"
  | sayMode => "发言模式"

/-- The two texts differ at most in the case of ASCII letters. -/
def sameLetters (a b : String) : Bool := a.toList.map Char.toLower == b.toList.map Char.toLower

/-- The command with a name. -/
def lookup? (name : String) : Option CommandKind :=
  all.find? fun k => sameLetters k.english name || k.chinese == name

/-- Declarations hold for the whole document, wherever they are written. -/
def isDeclaration : CommandKind → Bool
  | character | sprite | scene => true
  | _ => false

end CommandKind

/-- The keywords that commands know. -/
inductive Keyword where
  | otherNames
  | nameColor
  | color
  | state
  | image
  | background
  | channel
  | speaker
  | speakers
deriving Repr, DecidableEq

namespace Keyword

/-- The English spelling. -/
def english : Keyword → String
  | otherNames => "alias"
  | nameColor => "namecolor"
  | color => "color"
  | state => "state"
  | image => "image"
  | background => "background"
  | channel => "channel"
  | speaker => "speaker"
  | speakers => "speakers"

/-- The Chinese spelling. -/
def chinese : Keyword → String
  | otherNames => "别名"
  | nameColor => "名字颜色"
  | color => "颜色"
  | state => "状态"
  | image => "图片"
  | background => "背景"
  | channel => "通道"
  | speaker => "发言者"
  | speakers => "发言者列表"

/-- All spellings of a keyword. -/
def spellings (k : Keyword) : List String := [k.english, k.chinese]

end Keyword
end Manuscript
