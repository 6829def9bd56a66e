import EmbedLang.Ast
import EmbedLang.MacroError
import EmbedLang.MacroVisitor
import EmbedLang.MacroContract
import EmbedLang.MacroExpansion
import EmbedLang.MacroRun
import EmbedLang.MacroDerive
import EmbedLang.QueryState
import EmbedLang.Globals
import EmbedLang.GetGlobal
import EmbedLang.GetBinding
import EmbedLang.Database
