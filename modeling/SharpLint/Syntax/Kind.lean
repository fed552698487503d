/-!
# Node Kinds

The kinds of nodes in a C# syntax tree and the labels by which a parent tells
its children apart. A token that has no kind of its own, such as a comma or a
keyword, is of the kind that its text names.

## Main definitions

* `Kind`: the kind of a node.
* `Kind.name`: how the kind is written in reports.
* `Kind.ofName`: the kind that is written so.
* `Label`: the part a child plays in its parent.
-/

namespace SharpLint

/-- The kind of a syntax node. -/
inductive Kind
  | compilationUnit
  | externAliasDirective
  | usingDirective
  | globalAttribute
  | attribute
  | attributeArgumentList
  | attributeArgument
  | attributeList
  | attributeTargetSpecifier
  | namespaceDeclaration
  | fileScopedNamespaceDeclaration
  | classDeclaration
  | structDeclaration
  | recordDeclaration
  | recordStructDeclaration
  | interfaceDeclaration
  | enumDeclaration
  | enumMemberDeclarationList
  | enumMemberDeclaration
  | delegateDeclaration
  | declarationList
  | fieldDeclaration
  | constructorDeclaration
  | constructorInitializer
  | destructorDeclaration
  | methodDeclaration
  | operatorDeclaration
  | conversionOperatorDeclaration
  | eventDeclaration
  | eventFieldDeclaration
  | propertyDeclaration
  | indexerDeclaration
  | accessorList
  | accessorDeclaration
  | explicitInterfaceSpecifier
  | modifier
  | typeParameterList
  | typeParameter
  | baseList
  | primaryConstructorBaseType
  | typeParameterConstraintsClause
  | typeParameterConstraint
  | constructorConstraint
  | parameterList
  | bracketedParameterList
  | parameter
  | variableDeclaration
  | variableDeclarator
  | tuplePattern
  | argumentList
  | bracketedArgumentList
  | argument
  | implicitType
  | predefinedType
  | arrayType
  | arrayRankSpecifier
  | nullableType
  | pointerType
  | functionPointerType
  | functionPointerParameter
  | callingConvention
  | refType
  | scopedType
  | tupleType
  | tupleElement
  | block
  | arrowExpressionClause
  | globalStatement
  | emptyStatement
  | expressionStatement
  | localDeclarationStatement
  | localFunctionStatement
  | labeledStatement
  | ifStatement
  | whileStatement
  | doStatement
  | forStatement
  | foreachStatement
  | usingStatement
  | lockStatement
  | fixedStatement
  | checkedStatement
  | unsafeStatement
  | returnStatement
  | yieldStatement
  | breakStatement
  | continueStatement
  | gotoStatement
  | throwStatement
  | tryStatement
  | catchClause
  | catchDeclaration
  | catchFilterClause
  | finallyClause
  | switchStatement
  | switchBody
  | switchSection
  | constantPattern
  | declarationPattern
  | discard
  | recursivePattern
  | positionalPatternClause
  | propertyPatternClause
  | subpattern
  | varPattern
  | parenthesizedVariableDesignation
  | negatedPattern
  | parenthesizedPattern
  | relationalPattern
  | orPattern
  | andPattern
  | listPattern
  | typePattern
  | whenClause
  | identifier
  | implicitParameter
  | genericName
  | typeArgumentList
  | qualifiedName
  | aliasQualifiedName
  | assignmentExpression
  | conditionalExpression
  | binaryExpression
  | isExpression
  | isPatternExpression
  | asExpression
  | prefixUnaryExpression
  | postfixUnaryExpression
  | castExpression
  | awaitExpression
  | throwExpression
  | refExpression
  | rangeExpression
  | switchExpression
  | switchExpressionArm
  | withExpression
  | withInitializer
  | lambdaExpression
  | anonymousMethodExpression
  | memberAccessExpression
  | conditionalAccessExpression
  | memberBindingExpression
  | elementBindingExpression
  | elementAccessExpression
  | invocationExpression
  | objectCreationExpression
  | implicitObjectCreationExpression
  | arrayCreationExpression
  | implicitArrayCreationExpression
  | anonymousObjectCreationExpression
  | stackallocExpression
  | implicitStackallocExpression
  | initializerExpression
  | collectionExpression
  | parenthesizedExpression
  | tupleExpression
  | declarationExpression
  | defaultExpression
  | typeofExpression
  | sizeofExpression
  | checkedExpression
  | makerefExpression
  | reftypeExpression
  | refvalueExpression
  | queryExpression
  | fromClause
  | letClause
  | whereClause
  | joinClause
  | joinIntoClause
  | orderByClause
  | selectClause
  | groupClause
  | integerLiteral
  | realLiteral
  | booleanLiteral
  | nullLiteral
  | characterLiteral
  | stringLiteral
  | verbatimStringLiteral
  | rawStringLiteral
  | interpolatedStringExpression
  | interpolationStart
  | interpolationQuote
  | stringContent
  | interpolation
  | interpolationBrace
  | interpolationAlignmentClause
  | interpolationFormatClause
  | comment
  | preprocRegion
  | preprocEndregion
  | preprocLine
  | preprocPragma
  | preprocNullable
  | preprocError
  | preprocWarning
  | preprocDefine
  | preprocUndef
  | preprocIf
  | preprocElif
  | preprocElse
  | unaryExpression
  /-- Source that fits no rule of the grammar. -/
  | error
  /-- A token without a kind of its own. -/
  | token (text : String)
  deriving DecidableEq, Repr, Inhabited

namespace Kind

/-- Every kind but those of plain tokens. -/
def all : List Kind := [
    .compilationUnit, .externAliasDirective, .usingDirective, .globalAttribute, .attribute,
    .attributeArgumentList, .attributeArgument, .attributeList, .attributeTargetSpecifier,
    .namespaceDeclaration, .fileScopedNamespaceDeclaration, .classDeclaration, .structDeclaration,
    .recordDeclaration, .recordStructDeclaration, .interfaceDeclaration, .enumDeclaration,
    .enumMemberDeclarationList, .enumMemberDeclaration, .delegateDeclaration, .declarationList,
    .fieldDeclaration, .constructorDeclaration, .constructorInitializer, .destructorDeclaration,
    .methodDeclaration, .operatorDeclaration, .conversionOperatorDeclaration, .eventDeclaration,
    .eventFieldDeclaration, .propertyDeclaration, .indexerDeclaration, .accessorList,
    .accessorDeclaration, .explicitInterfaceSpecifier, .modifier, .typeParameterList,
    .typeParameter, .baseList, .primaryConstructorBaseType, .typeParameterConstraintsClause,
    .typeParameterConstraint, .constructorConstraint, .parameterList, .bracketedParameterList,
    .parameter, .variableDeclaration, .variableDeclarator, .tuplePattern, .argumentList,
    .bracketedArgumentList, .argument, .implicitType, .predefinedType, .arrayType,
    .arrayRankSpecifier, .nullableType, .pointerType, .functionPointerType,
    .functionPointerParameter, .callingConvention, .refType, .scopedType, .tupleType,
    .tupleElement, .block, .arrowExpressionClause, .globalStatement, .emptyStatement,
    .expressionStatement, .localDeclarationStatement, .localFunctionStatement, .labeledStatement,
    .ifStatement, .whileStatement, .doStatement, .forStatement, .foreachStatement,
    .usingStatement, .lockStatement, .fixedStatement, .checkedStatement, .unsafeStatement,
    .returnStatement, .yieldStatement, .breakStatement, .continueStatement, .gotoStatement,
    .throwStatement, .tryStatement, .catchClause, .catchDeclaration, .catchFilterClause,
    .finallyClause, .switchStatement, .switchBody, .switchSection, .constantPattern,
    .declarationPattern, .discard, .recursivePattern, .positionalPatternClause,
    .propertyPatternClause, .subpattern, .varPattern, .parenthesizedVariableDesignation,
    .negatedPattern, .parenthesizedPattern, .relationalPattern, .orPattern, .andPattern,
    .listPattern, .typePattern, .whenClause, .identifier, .implicitParameter, .genericName,
    .typeArgumentList, .qualifiedName, .aliasQualifiedName, .assignmentExpression,
    .conditionalExpression, .binaryExpression, .isExpression, .isPatternExpression, .asExpression,
    .prefixUnaryExpression, .postfixUnaryExpression, .castExpression, .awaitExpression,
    .throwExpression, .refExpression, .rangeExpression, .switchExpression, .switchExpressionArm,
    .withExpression, .withInitializer, .lambdaExpression, .anonymousMethodExpression,
    .memberAccessExpression, .conditionalAccessExpression, .memberBindingExpression,
    .elementBindingExpression, .elementAccessExpression, .invocationExpression,
    .objectCreationExpression, .implicitObjectCreationExpression, .arrayCreationExpression,
    .implicitArrayCreationExpression, .anonymousObjectCreationExpression, .stackallocExpression,
    .implicitStackallocExpression, .initializerExpression, .collectionExpression,
    .parenthesizedExpression, .tupleExpression, .declarationExpression, .defaultExpression,
    .typeofExpression, .sizeofExpression, .checkedExpression, .makerefExpression,
    .reftypeExpression, .refvalueExpression, .queryExpression, .fromClause, .letClause,
    .whereClause, .joinClause, .joinIntoClause, .orderByClause, .selectClause, .groupClause,
    .integerLiteral, .realLiteral, .booleanLiteral, .nullLiteral, .characterLiteral,
    .stringLiteral, .verbatimStringLiteral, .rawStringLiteral, .interpolatedStringExpression,
    .interpolationStart, .interpolationQuote, .stringContent, .interpolation, .interpolationBrace,
    .interpolationAlignmentClause, .interpolationFormatClause, .comment, .preprocRegion,
    .preprocEndregion, .preprocLine, .preprocPragma, .preprocNullable, .preprocError,
    .preprocWarning, .preprocDefine, .preprocUndef, .preprocIf, .preprocElif, .preprocElse,
    .unaryExpression, .error]

/-- The name of the kind; a plain token is named by its text. -/
def name : Kind → String
  | .compilationUnit => "compilation_unit"
  | .externAliasDirective => "extern_alias_directive"
  | .usingDirective => "using_directive"
  | .globalAttribute => "global_attribute"
  | .attribute => "attribute"
  | .attributeArgumentList => "attribute_argument_list"
  | .attributeArgument => "attribute_argument"
  | .attributeList => "attribute_list"
  | .attributeTargetSpecifier => "attribute_target_specifier"
  | .namespaceDeclaration => "namespace_declaration"
  | .fileScopedNamespaceDeclaration => "file_scoped_namespace_declaration"
  | .classDeclaration => "class_declaration"
  | .structDeclaration => "struct_declaration"
  | .recordDeclaration => "record_declaration"
  | .recordStructDeclaration => "record_struct_declaration"
  | .interfaceDeclaration => "interface_declaration"
  | .enumDeclaration => "enum_declaration"
  | .enumMemberDeclarationList => "enum_member_declaration_list"
  | .enumMemberDeclaration => "enum_member_declaration"
  | .delegateDeclaration => "delegate_declaration"
  | .declarationList => "declaration_list"
  | .fieldDeclaration => "field_declaration"
  | .constructorDeclaration => "constructor_declaration"
  | .constructorInitializer => "constructor_initializer"
  | .destructorDeclaration => "destructor_declaration"
  | .methodDeclaration => "method_declaration"
  | .operatorDeclaration => "operator_declaration"
  | .conversionOperatorDeclaration => "conversion_operator_declaration"
  | .eventDeclaration => "event_declaration"
  | .eventFieldDeclaration => "event_field_declaration"
  | .propertyDeclaration => "property_declaration"
  | .indexerDeclaration => "indexer_declaration"
  | .accessorList => "accessor_list"
  | .accessorDeclaration => "accessor_declaration"
  | .explicitInterfaceSpecifier => "explicit_interface_specifier"
  | .modifier => "modifier"
  | .typeParameterList => "type_parameter_list"
  | .typeParameter => "type_parameter"
  | .baseList => "base_list"
  | .primaryConstructorBaseType => "primary_constructor_base_type"
  | .typeParameterConstraintsClause => "type_parameter_constraints_clause"
  | .typeParameterConstraint => "type_parameter_constraint"
  | .constructorConstraint => "constructor_constraint"
  | .parameterList => "parameter_list"
  | .bracketedParameterList => "bracketed_parameter_list"
  | .parameter => "parameter"
  | .variableDeclaration => "variable_declaration"
  | .variableDeclarator => "variable_declarator"
  | .tuplePattern => "tuple_pattern"
  | .argumentList => "argument_list"
  | .bracketedArgumentList => "bracketed_argument_list"
  | .argument => "argument"
  | .implicitType => "implicit_type"
  | .predefinedType => "predefined_type"
  | .arrayType => "array_type"
  | .arrayRankSpecifier => "array_rank_specifier"
  | .nullableType => "nullable_type"
  | .pointerType => "pointer_type"
  | .functionPointerType => "function_pointer_type"
  | .functionPointerParameter => "function_pointer_parameter"
  | .callingConvention => "calling_convention"
  | .refType => "ref_type"
  | .scopedType => "scoped_type"
  | .tupleType => "tuple_type"
  | .tupleElement => "tuple_element"
  | .block => "block"
  | .arrowExpressionClause => "arrow_expression_clause"
  | .globalStatement => "global_statement"
  | .emptyStatement => "empty_statement"
  | .expressionStatement => "expression_statement"
  | .localDeclarationStatement => "local_declaration_statement"
  | .localFunctionStatement => "local_function_statement"
  | .labeledStatement => "labeled_statement"
  | .ifStatement => "if_statement"
  | .whileStatement => "while_statement"
  | .doStatement => "do_statement"
  | .forStatement => "for_statement"
  | .foreachStatement => "foreach_statement"
  | .usingStatement => "using_statement"
  | .lockStatement => "lock_statement"
  | .fixedStatement => "fixed_statement"
  | .checkedStatement => "checked_statement"
  | .unsafeStatement => "unsafe_statement"
  | .returnStatement => "return_statement"
  | .yieldStatement => "yield_statement"
  | .breakStatement => "break_statement"
  | .continueStatement => "continue_statement"
  | .gotoStatement => "goto_statement"
  | .throwStatement => "throw_statement"
  | .tryStatement => "try_statement"
  | .catchClause => "catch_clause"
  | .catchDeclaration => "catch_declaration"
  | .catchFilterClause => "catch_filter_clause"
  | .finallyClause => "finally_clause"
  | .switchStatement => "switch_statement"
  | .switchBody => "switch_body"
  | .switchSection => "switch_section"
  | .constantPattern => "constant_pattern"
  | .declarationPattern => "declaration_pattern"
  | .discard => "discard"
  | .recursivePattern => "recursive_pattern"
  | .positionalPatternClause => "positional_pattern_clause"
  | .propertyPatternClause => "property_pattern_clause"
  | .subpattern => "subpattern"
  | .varPattern => "var_pattern"
  | .parenthesizedVariableDesignation => "parenthesized_variable_designation"
  | .negatedPattern => "negated_pattern"
  | .parenthesizedPattern => "parenthesized_pattern"
  | .relationalPattern => "relational_pattern"
  | .orPattern => "or_pattern"
  | .andPattern => "and_pattern"
  | .listPattern => "list_pattern"
  | .typePattern => "type_pattern"
  | .whenClause => "when_clause"
  | .identifier => "identifier"
  | .implicitParameter => "implicit_parameter"
  | .genericName => "generic_name"
  | .typeArgumentList => "type_argument_list"
  | .qualifiedName => "qualified_name"
  | .aliasQualifiedName => "alias_qualified_name"
  | .assignmentExpression => "assignment_expression"
  | .conditionalExpression => "conditional_expression"
  | .binaryExpression => "binary_expression"
  | .isExpression => "is_expression"
  | .isPatternExpression => "is_pattern_expression"
  | .asExpression => "as_expression"
  | .prefixUnaryExpression => "prefix_unary_expression"
  | .postfixUnaryExpression => "postfix_unary_expression"
  | .castExpression => "cast_expression"
  | .awaitExpression => "await_expression"
  | .throwExpression => "throw_expression"
  | .refExpression => "ref_expression"
  | .rangeExpression => "range_expression"
  | .switchExpression => "switch_expression"
  | .switchExpressionArm => "switch_expression_arm"
  | .withExpression => "with_expression"
  | .withInitializer => "with_initializer"
  | .lambdaExpression => "lambda_expression"
  | .anonymousMethodExpression => "anonymous_method_expression"
  | .memberAccessExpression => "member_access_expression"
  | .conditionalAccessExpression => "conditional_access_expression"
  | .memberBindingExpression => "member_binding_expression"
  | .elementBindingExpression => "element_binding_expression"
  | .elementAccessExpression => "element_access_expression"
  | .invocationExpression => "invocation_expression"
  | .objectCreationExpression => "object_creation_expression"
  | .implicitObjectCreationExpression => "implicit_object_creation_expression"
  | .arrayCreationExpression => "array_creation_expression"
  | .implicitArrayCreationExpression => "implicit_array_creation_expression"
  | .anonymousObjectCreationExpression => "anonymous_object_creation_expression"
  | .stackallocExpression => "stackalloc_expression"
  | .implicitStackallocExpression => "implicit_stackalloc_expression"
  | .initializerExpression => "initializer_expression"
  | .collectionExpression => "collection_expression"
  | .parenthesizedExpression => "parenthesized_expression"
  | .tupleExpression => "tuple_expression"
  | .declarationExpression => "declaration_expression"
  | .defaultExpression => "default_expression"
  | .typeofExpression => "typeof_expression"
  | .sizeofExpression => "sizeof_expression"
  | .checkedExpression => "checked_expression"
  | .makerefExpression => "makeref_expression"
  | .reftypeExpression => "reftype_expression"
  | .refvalueExpression => "refvalue_expression"
  | .queryExpression => "query_expression"
  | .fromClause => "from_clause"
  | .letClause => "let_clause"
  | .whereClause => "where_clause"
  | .joinClause => "join_clause"
  | .joinIntoClause => "join_into_clause"
  | .orderByClause => "order_by_clause"
  | .selectClause => "select_clause"
  | .groupClause => "group_clause"
  | .integerLiteral => "integer_literal"
  | .realLiteral => "real_literal"
  | .booleanLiteral => "boolean_literal"
  | .nullLiteral => "null_literal"
  | .characterLiteral => "character_literal"
  | .stringLiteral => "string_literal"
  | .verbatimStringLiteral => "verbatim_string_literal"
  | .rawStringLiteral => "raw_string_literal"
  | .interpolatedStringExpression => "interpolated_string_expression"
  | .interpolationStart => "interpolation_start"
  | .interpolationQuote => "interpolation_quote"
  | .stringContent => "string_content"
  | .interpolation => "interpolation"
  | .interpolationBrace => "interpolation_brace"
  | .interpolationAlignmentClause => "interpolation_alignment_clause"
  | .interpolationFormatClause => "interpolation_format_clause"
  | .comment => "comment"
  | .preprocRegion => "preproc_region"
  | .preprocEndregion => "preproc_endregion"
  | .preprocLine => "preproc_line"
  | .preprocPragma => "preproc_pragma"
  | .preprocNullable => "preproc_nullable"
  | .preprocError => "preproc_error"
  | .preprocWarning => "preproc_warning"
  | .preprocDefine => "preproc_define"
  | .preprocUndef => "preproc_undef"
  | .preprocIf => "preproc_if"
  | .preprocElif => "preproc_elif"
  | .preprocElse => "preproc_else"
  | .unaryExpression => "unary_expression"
  | .error => "ERROR"
  | .token text => text

/-- The kind with the given name. A name that no other kind has names a
    token. -/
def ofName (name : String) : Kind :=
  (all.find? fun kind => kind.name == name).getD (.token name)

/-- Whether nodes of the kind may stand between any two tokens, outside the
    rules of the grammar: comments and the directives that govern no code. -/
def isExtra : Kind → Bool
  | .comment | .preprocRegion | .preprocEndregion | .preprocLine | .preprocPragma
  | .preprocNullable | .preprocError | .preprocWarning | .preprocDefine | .preprocUndef => true
  | _ => false

/-- Whether nodes of the kind have a name of their own. -/
def isNamed : Kind → Bool
  | .token _ => false
  | _ => true

/-- Whether nodes of the kind declare a type whose members may be private
    fields and constructors. -/
def isTypeDeclaration : Kind → Bool
  | .classDeclaration | .structDeclaration | .recordDeclaration | .recordStructDeclaration => true
  | _ => false

end Kind

/-- The part that a child plays in its parent, where analyses ask for it. -/
inductive Label
  | name
  | type
  | returns
  | left
  | right
  | operator
  | parameters
  | expression
  | value
  | rank
  | pattern
  deriving DecidableEq, Repr, Inhabited

end SharpLint
